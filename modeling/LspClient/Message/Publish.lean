import LspClient.Edit.Apply

/-!
# Published diagnostics

What a server publishes for a document: its URI, the version it looked at, and all diagnostics of
it. Severity, code, source and tags may be missing; a diagnostic without severity is a warning, and
one without a source is put down to the server itself.
-/

namespace LspClient

structure PublishedDiagnostic where
  range : Range
  severity : Option Nat
  code : Option Json
  source : Option String
  message : String
  tags : Option (List Nat)
  deriving Repr, Inhabited

structure Publish where
  uri : String
  version : Option Int
  diagnostics : List PublishedDiagnostic
  deriving Repr, Inhabited

open Json

namespace PublishedDiagnostic

def decode : Decoder PublishedDiagnostic :=
  let tags := Decoder.list Decoder.word8
  record "LspDiagnostic"
    [.of "range" Range.decode false,
     .of "severity" (Decoder.nullable Decoder.word64) false,
     .of "code" (Decoder.nullable Decoder.any) true,
     .of "source" (Decoder.nullable Decoder.text) false,
     .of "message" Decoder.text false,
     .of "tags" (Decoder.nullable tags) true]
    fun ms => do
      let range ← ms.required "range" Range.decode
      let severity ← ms.optional "severity" Decoder.word64
      let code ← ms.optional "code" Decoder.any
      let source ← ms.optional "source" Decoder.text
      let message ← ms.required "message" Decoder.text
      let tags ← ms.optional "tags" tags
      return { range, severity, code, source, message, tags }

/-- A code is a text, or a number as it is written. -/
def codeText : Option Json → Option String
  | some (.str s) => some s
  | some (.num n) => some n.render
  | _ => none

def toDiagnostic (d : PublishedDiagnostic) (server : String) : Diagnostic where
  severity := (d.severity.bind Severity.ofNat?).getD .warning
  message := d.message
  range := d.range
  source := d.source.getD server
  code := codeText d.code
  tags := d.tags.getD []

end PublishedDiagnostic

namespace Publish

def decode : Decoder Publish :=
  let diagnostics := Decoder.list PublishedDiagnostic.decode
  record "PublishDiagnosticsParams"
    [.of "uri" Decoder.text false,
     .of "version" (Decoder.nullable Decoder.int32) true,
     .of "diagnostics" diagnostics false]
    fun ms => do
      let uri ← ms.required "uri" Decoder.text
      let version ← ms.optional "version" Decoder.int32
      let diagnostics ← ms.required "diagnostics" diagnostics
      return { uri, version, diagnostics }

def items (p : Publish) (server : String) : List Diagnostic :=
  p.diagnostics.map fun d => d.toDiagnostic server

end Publish

end LspClient
