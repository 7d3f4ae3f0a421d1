import LspClient.Message.Publish
import LspClient.Proofs.Diagnostic.Reporting
import LspClient.Proofs.Json.Ordered

/-!
# Line and column numbers

A position is read as it is published, and any two 32-bit words are one (`writtenIn_of_decode`). A
report counts from one, and the addition is one of words: the greatest word comes out as zero. A
line shows the numbers of the position with one added exactly when neither of them is that word
(`line_eq_lineAt_iff`).

What is subtracted in a report is never more than what it is subtracted from.
-/

namespace LspClient

variable {v : Json} {path : Path}

/-! ### Positions as they are published -/

namespace Position

/-- The value holds the line and the column of the position, as numbers. -/
structure WrittenIn (p : Position) (v : Json) : Prop where
  line : v.member? ["line", "character"] "line" = some (.num (.int p.line.toNat))
  character : v.member? ["line", "character"] "character" = some (.num (.int p.character.toNat))

theorem writtenIn_of_decode {p : Position} (h : decode v = .ok p) : p.WrittenIn v := by
  obtain ⟨line, hline, h⟩ := Json.of_bind_ok (Json.build_of_record h)
  obtain ⟨character, hcharacter, h⟩ := Json.of_bind_ok h
  cases h
  obtain ⟨w, hw, hline⟩ := Json.exists_of_required hline
  obtain ⟨w', hw', hcharacter⟩ := Json.exists_of_required hcharacter
  obtain ⟨rfl, hlt⟩ := Json.eq_of_word32 hline
  obtain ⟨rfl, hlt'⟩ := Json.eq_of_word32 hcharacter
  constructor
  · rw [UInt32.toNat_ofNat_of_lt' hlt]
    exact hw
  · rw [UInt32.toNat_ofNat_of_lt' hlt']
    exact hw'

end Position

namespace PublishedDiagnostic

/-- The value that a published diagnostic has for the position it starts at. -/
def start? (v : Json) : Option Json :=
  (v.member? ["range", "severity", "code", "source", "message", "tags"] "range").bind
    fun range => range.member? ["start", "end"] "start"

theorem writtenIn_of_decode {d : PublishedDiagnostic} (h : decode v = .ok d) :
    ∃ start, start? v = some start ∧ d.range.start.WrittenIn start := by
  dsimp only [decode] at h
  obtain ⟨range, hrange, h⟩ := Json.of_bind_ok (Json.build_of_record h)
  obtain ⟨severity, -, h⟩ := Json.of_bind_ok h
  obtain ⟨code, -, h⟩ := Json.of_bind_ok h
  obtain ⟨source, -, h⟩ := Json.of_bind_ok h
  obtain ⟨message, -, h⟩ := Json.of_bind_ok h
  obtain ⟨tags, -, h⟩ := Json.of_bind_ok h
  cases h
  obtain ⟨w, hw, hrange⟩ := Json.exists_of_required hrange
  obtain ⟨start, hstart, h⟩ := Json.of_bind_ok (Json.build_of_record hrange)
  obtain ⟨stop, -, h⟩ := Json.of_bind_ok h
  cases h
  obtain ⟨w', hw', hstart⟩ := Json.exists_of_required hstart
  exact ⟨w', Option.bind_eq_some_iff.2 ⟨w, hw, hw'⟩, Position.writtenIn_of_decode hstart⟩

end PublishedDiagnostic

/-- The diagnostics that a server publishes start where it says. -/
theorem Publish.writtenIn_of_decode {p : Publish} (h : decode v = .ok p) (server : String) :
    ∃ vs, v.member? ["uri", "version", "diagnostics"] "diagnostics" = some (.arr vs) ∧
      List.Forall₂ (fun w d => ∃ start, PublishedDiagnostic.start? w = some start ∧
        d.range.start.WrittenIn start) vs (p.items server) := by
  dsimp only [decode] at h
  obtain ⟨uri, -, h⟩ := Json.of_bind_ok (Json.build_of_record h)
  obtain ⟨version, -, h⟩ := Json.of_bind_ok h
  obtain ⟨diagnostics, hdiagnostics, h⟩ := Json.of_bind_ok h
  cases h
  obtain ⟨w, hw, hdiagnostics⟩ := Json.exists_of_required hdiagnostics
  obtain ⟨vs, rfl, hvs⟩ := Json.forall₂_of_list hdiagnostics
  refine ⟨vs, hw, List.forall₂_map_right_iff.2 (hvs.imp fun _ d hd => ?_)⟩
  exact PublishedDiagnostic.writtenIn_of_decode hd

/-! ### Positions as they are shown -/

namespace Diagnostic

/-- The diagnostic as a line of a report, with these numbers for its line and column. -/
def lineAt (d : Diagnostic) (path : Path) (line column : Nat) : String :=
  s!"{path}:{line}:{column}: {d.severity.label}: " ++ s!"[{d.source}] {d.message}" ++
    codeSuffix d.code

theorem toList_lineAt (d : Diagnostic) (path : Path) : ∃ rest, ∀ line column,
    (d.lineAt path line column).toList =
      path.text.toList ++
        ':' :: (line.repr.toList ++ ':' :: (column.repr.toList ++ ':' :: rest)) := by
  refine ⟨(s!" {d.severity.label}: [{d.source}] {d.message}" ++ codeSuffix d.code).toList,
    fun line column => ?_⟩
  simp only [lineAt, String.toList_append, List.append_assoc]
  rfl

theorem colon_notMem_repr (n : Nat) : ':' ∉ n.repr.toList := by
  rw [Nat.toList_repr]
  intro h
  exact absurd (Nat.isDigit_of_mem_toDigits (by decide) (by decide) h) (by decide)

/-- A number ends at the first colon. -/
theorem repr_append_inj {m n : Nat} {cs ds : List Char}
    (h : m.repr.toList ++ ':' :: cs = n.repr.toList ++ ':' :: ds) : m = n ∧ cs = ds := by
  have htake (n : Nat) (cs : List Char) :
      (n.repr.toList ++ ':' :: cs).takeWhile (· ≠ ':') = n.repr.toList := by
    rw [List.takeWhile_append_of_pos, List.takeWhile_cons_of_neg (by decide), List.append_nil]
    intro c hc
    rw [decide_eq_true_eq]
    rintro rfl
    exact colon_notMem_repr n hc
  have hdigits : Nat.toDigits 10 m = Nat.toDigits 10 n := by
    rw [← Nat.toList_repr, ← Nat.toList_repr, ← htake m cs, h, htake]
  obtain rfl : m = n := by
    rw [← Nat.ofDigitChars_ten_toDigits (n := m), hdigits, Nat.ofDigitChars_ten_toDigits]
  exact ⟨rfl, List.tail_eq_of_cons_eq (List.append_cancel_left h)⟩

theorem lineAt_inj {d : Diagnostic} {line column line' column' : Nat} :
    d.lineAt path line column = d.lineAt path line' column' ↔ line = line' ∧ column = column' := by
  constructor
  · intro h
    obtain ⟨rest, hrest⟩ := d.toList_lineAt path
    have hlist := congrArg String.toList h
    rw [hrest, hrest] at hlist
    obtain ⟨hline, hlist⟩ := repr_append_inj
      (List.tail_eq_of_cons_eq (List.append_cancel_left hlist))
    exact ⟨hline, (repr_append_inj hlist).1⟩
  · rintro ⟨rfl, rfl⟩
    rfl

/-- Words are shown as numbers, after one was added to them. -/
theorem line_eq (d : Diagnostic) (path : Path) : d.line path =
    d.lineAt path ((d.range.start.line.toNat + 1) % 4294967296)
      ((d.range.start.character.toNat + 1) % 4294967296) := by
  have hnext (n : UInt32) : toString (n + 1) = toString ((n.toNat + 1) % 4294967296) := by
    have hadd : (n + 1).toNat = (n.toNat + 1) % 4294967296 := UInt32.toNat_add n 1
    rw [← hadd]
    rfl
  simp only [line, lineAt, hnext]

theorem line_eq_lineAt_iff {d : Diagnostic} : d.line path =
    d.lineAt path (d.range.start.line.toNat + 1) (d.range.start.character.toNat + 1) ↔
      d.range.start.line.toNat ≠ 4294967295 ∧ d.range.start.character.toNat ≠ 4294967295 := by
  rw [line_eq, lineAt_inj]
  have hline := d.range.start.line.toNat_lt
  have hcharacter := d.range.start.character.toNat_lt
  omega

end Diagnostic

/-! ### Reports -/

namespace FileReport

/-- The lines of a report show the first items, and each of them the numbers from one on unless one
is the greatest word. -/
theorem lines_assemble (path : Path) (results : Results) :
    List.Forall₂ (fun line d => line = d.line path ∧
      (line = d.lineAt path (d.range.start.line.toNat + 1) (d.range.start.character.toNat + 1) ↔
        d.range.start.line.toNat ≠ 4294967295 ∧ d.range.start.character.toNat ≠ 4294967295))
      (assemble path results).lines ((assemble path results).items.take maxLines) := by
  change List.Forall₂ _ (((assemble path results).items.take maxLines).map _) _
  rw [List.forall₂_map_left_iff, List.forall₂_same]
  exact fun d _ => ⟨rfl, Diagnostic.line_eq_lineAt_iff⟩

/-- Nothing in a report is subtracted from less. -/
theorem subtrahends_le (r : FileReport) :
    r.errorCount ≤ r.items.length ∧ r.count .warning ≤ r.items.length - r.errorCount ∧
      (r.truncated = true → r.lines.length ≤ r.items.length) := by
  have hsum := errorCount_add_warnings_add_otherCount r
  refine ⟨by omega, by omega, fun h => ?_⟩
  rw [truncated, decide_eq_true_eq] at h
  exact Nat.le_of_lt h

/-- Positions come from what is published as they are, and one is added to each of their numbers in
a report, except that the greatest word is shown as zero. All subtractions are exact. -/
theorem numbers_shown {v : Json} {p : Publish} (h : Publish.decode v = .ok p) (server : String) :
    (∃ vs, v.member? ["uri", "version", "diagnostics"] "diagnostics" = some (.arr vs) ∧
      List.Forall₂ (fun w d => ∃ start, PublishedDiagnostic.start? w = some start ∧
        d.range.start.WrittenIn start) vs (p.items server)) ∧
    (∀ path results unreached, List.Forall₂ (fun line d => line = d.line path ∧
      (line = d.lineAt path (d.range.start.line.toNat + 1) (d.range.start.character.toNat + 1) ↔
        d.range.start.line.toNat ≠ 4294967295 ∧ d.range.start.character.toNat ≠ 4294967295))
      ((assemble path results).withConnectFailures unreached).lines
      (((assemble path results).withConnectFailures unreached).items.take maxLines)) ∧
    ∀ r : FileReport, r.errorCount ≤ r.items.length ∧
      r.count .warning ≤ r.items.length - r.errorCount ∧
      (r.truncated = true → r.lines.length ≤ r.items.length) :=
  ⟨Publish.writtenIn_of_decode h server, fun path results _ => lines_assemble path results,
    subtrahends_le⟩

/-! ### The last line there can be -/

/-- One diagnostic, at the beginning of a line. -/
def published (line : Nat) : Json :=
  .obj [("uri", .str "file:///a"), ("diagnostics", .arr [.obj [("message", .str "m"),
    ("range", .obj [("start", .obj [("line", .num (.int line)), ("character", .num (.int 0))])])]])]

def publishedAt (line : UInt32) : Publish :=
  ⟨"file:///a", none, [⟨⟨⟨line, 0⟩, ⟨line, 0⟩⟩, none, none, none, "m", none⟩]⟩

def diagnosticAt (line : UInt32) : Diagnostic :=
  ⟨.warning, "m", ⟨⟨line, 0⟩, ⟨line, 0⟩⟩, "s", none, []⟩

def reportOn (line : UInt32) : FileReport :=
  assemble ⟨"a.rs"⟩ [("s", .ok ((publishedAt line).items "s"))]

theorem items_reportOn (line : UInt32) : (reportOn line).items = [diagnosticAt line] := by
  change Diagnostic.merge [diagnosticAt line] = _
  rw [Diagnostic.merge]
  exact List.mergeSort_singleton _

theorem numbers_shown_lastLine :
    Publish.decode (published 4294967294) = .ok (publishedAt 4294967294) ∧
      (reportOn 4294967294).lines = ["a.rs:4294967295:1: warning: [s] m"] := by
  have hdecode : Publish.decode (published 4294967294) = .ok (publishedAt 4294967294) := rfl
  obtain ⟨-, hlines, -⟩ := numbers_shown hdecode "s"
  have h : List.Forall₂ _ (reportOn 4294967294).lines ((reportOn 4294967294).items.take maxLines) :=
    hlines ⟨"a.rs"⟩ [("s", .ok ((publishedAt 4294967294).items "s"))] []
  rw [items_reportOn] at h
  obtain ⟨line, _, ⟨-, hline⟩, hnil, hcons⟩ := List.forall₂_cons_right_iff.1 h
  rw [hcons, List.forall₂_nil_right_iff.1 hnil, hline.2 ⟨by decide, by decide⟩]
  exact ⟨hdecode, by decide +kernel⟩

/-- The greatest word can be published, and is shown as zero. -/
theorem numbers_wrap :
    Publish.decode (published 4294967295) = .ok (publishedAt 4294967295) ∧
      (reportOn 4294967295).lines = ["a.rs:0:1: warning: [s] m"] := by
  refine ⟨rfl, ?_⟩
  change ((reportOn 4294967295).items.take maxLines).map (fun d => d.line ⟨"a.rs"⟩) = _
  rw [items_reportOn]
  decide +kernel

end FileReport

end LspClient
