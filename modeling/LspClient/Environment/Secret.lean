/-!
# Secret variables

Variables whose names match a denied pattern are kept from the processes that are started. A
pattern may begin and end with a star; patterns and names are compared in upper case. `upper` gives
the characters of a name whose upper-case form holds an ASCII character that form, and leaves all
others alone: the patterns are ASCII, so they cannot tell.
-/

namespace LspClient.Environment

def deniedPatterns : List String := [
  "*_KEY", "*_TOKEN", "*_SECRET", "*_PASSWORD", "*_CREDENTIAL*", "*_API_*", "AWS_*",
  "ANTHROPIC_*", "OPENAI_*", "GEMINI_*", "GOOGLE_*", "AZURE_*", "GH_*", "GITHUB_*", "NPM_*"]

def upperChar (c : Char) : List Char :=
  match c with
  | 'ß' => ['S', 'S']
  | 'ı' => ['I']
  | 'ŉ' => ['ʼ', 'N']
  | 'ſ' => ['S']
  | 'ǰ' => ['J', '\u030C']
  | 'ẖ' => ['H', '\u0331']
  | 'ẗ' => ['T', '\u0308']
  | 'ẘ' => ['W', '\u030A']
  | 'ẙ' => ['Y', '\u030A']
  | 'ẚ' => ['A', 'ʾ']
  | 'ﬀ' => ['F', 'F']
  | 'ﬁ' => ['F', 'I']
  | 'ﬂ' => ['F', 'L']
  | 'ﬃ' => ['F', 'F', 'I']
  | 'ﬄ' => ['F', 'F', 'L']
  | 'ﬅ' => ['S', 'T']
  | 'ﬆ' => ['S', 'T']
  | c => [c.toUpper]

def upper (key : List Char) : List Char := key.flatMap upperChar

/-- Whether `part` occurs in `text`. -/
def occursIn (part : List Char) : List Char → Bool
  | [] => part.isEmpty
  | c :: rest => part.isPrefixOf (c :: rest) || occursIn part rest

/-- Match a name in upper case against a pattern whose only stars are at its ends. -/
def matchesPattern (pattern key : List Char) : Bool :=
  match upper pattern, (upper pattern).getLast? with
  | '*' :: rest, some '*' => occursIn rest.dropLast key
  | '*' :: rest, _ => rest.isSuffixOf key
  | pattern, some '*' => pattern.dropLast.isPrefixOf key
  | pattern, _ => pattern == key

def isSecret (key : String) : Bool :=
  deniedPatterns.any fun p => matchesPattern p.toList (upper key.toList)

end LspClient.Environment
