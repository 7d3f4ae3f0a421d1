import LspClient.Frame.Basic
import LspClient.Proofs.Text.Bytes
import LspClient.Proofs.Text.Trimming
import Mathlib.Tactic.SplitIfs

/-!
# Header lines

What `readLine` makes of a line: a `LengthLine` tells a length however it is spelt, and a line that
`Tells` nothing is passed over (`readLine_length`, `readLine_other`). The first line of what
`Frame.write` writes is a length line. `readHeaders` goes through bytes up to the next line feed; of
a line that is cut it can only say that the stream ended in the headers: such a line is never taken
for the blank one (`readLine_ne_blank`), and no line is faulty in a way that could be passed over
(`isRecoverable_of_readLine`).
-/

namespace LspClient

/-! ### Blank characters -/

namespace Text

/-- A blank character is no capital letter. -/
theorem toLower_of_blank {c : Char} (h : blank c = true) : c.toLower = c := by
  have hnot : ¬ (65 ≤ c.toNat ∧ c.toNat ≤ 90) := by
    simp only [blank, Bool.or_eq_true, Bool.and_eq_true, decide_eq_true_eq, beq_iff_eq] at h
    omega
  refine dif_neg ?_
  simpa [UInt32.le_iff_toNat_le] using hnot

theorem ne_colon_of_blank {c : Char} (h : blank c = true) : c ≠ ':' := by
  rintro rfl
  revert h
  decide

end Text

namespace Frame

/-! ### Lengths -/

theorem isDigit_of_mem_toDigits {n : Nat} {c : Char} (h : c ∈ Nat.toDigits 10 n) :
    Json.isDigit c = true := by
  have := Nat.isDigit_of_mem_toDigits (by decide) (by decide) h
  simpa [Json.isDigit, Char.isDigit, Char.le_def, UInt32.le_iff_toNat_le] using this

theorem toNat_of_isDigit {c : Char} (h : Json.isDigit c = true) : 48 ≤ c.toNat ∧ c.toNat ≤ 57 := by
  simpa [Json.isDigit, Char.le_def, UInt32.le_iff_toNat_le] using h

theorem blank_of_isDigit {c : Char} (h : Json.isDigit c = true) : Text.blank c = false := by
  obtain ⟨hlow, hhigh⟩ := toNat_of_isDigit h
  simp only [Text.blank, Bool.or_eq_false_iff, Bool.and_eq_false_iff, decide_eq_false_iff_not,
    beq_eq_false_iff_ne]
  omega

theorem ne_of_isDigit {c d : Char} (h : Json.isDigit c = true) (hd : Json.isDigit d = false) :
    c ≠ d := by
  rintro rfl
  rw [h] at hd
  cases hd

theorem le_ofDigitChars (cs : List Char) (n : Nat) : n ≤ Nat.ofDigitChars 10 cs n := by
  induction cs generalizing n with
  | nil => simp
  | cons c cs ih =>
    rw [Nat.ofDigitChars_cons]
    exact Nat.le_trans (by omega) (ih _)

theorem parseDigits_eq {limit : Nat} {cs : List Char} (n : Nat)
    (hcs : ∀ c ∈ cs, Json.isDigit c = true) (hlimit : Nat.ofDigitChars 10 cs n ≤ limit) :
    parseDigits limit n cs = some (Nat.ofDigitChars 10 cs n) := by
  induction cs generalizing n with
  | nil => simp [parseDigits]
  | cons c cs ih =>
    have hnext : 10 * n + (c.toNat - '0'.toNat) = n * 10 + Json.digitValue c := by
      rw [Json.digitValue]; omega
    rw [Nat.ofDigitChars_cons, hnext] at hlimit
    rw [parseDigits, if_pos (hcs c (List.mem_cons_self ..)), Nat.ofDigitChars_cons, hnext]
    simp only [Nat.le_trans (le_ofDigitChars cs _) hlimit, ↓reduceIte]
    exact ih _ (fun d hd => hcs d (List.mem_cons_of_mem _ hd)) hlimit

theorem parseLength_digits {cs : List Char} (hne : cs ≠ [])
    (hcs : ∀ c ∈ cs, Json.isDigit c = true) (hword : Nat.ofDigitChars 10 cs 0 ≤ Json.maxWord) :
    parseLength cs = some (Nat.ofDigitChars 10 cs 0) := by
  have hparse := parseDigits_eq 0 hcs hword
  cases cs with
  | nil => exact absurd rfl hne
  | cons d ds =>
    have hplus : d ≠ '+' := ne_of_isDigit (hcs d (List.mem_cons_self ..)) (by decide)
    rw [parseLength]
    · exact hparse
    · simp [hplus]
    · simp [hplus]
    · simp

theorem parseLength_plus {cs : List Char} (hne : cs ≠ [])
    (hcs : ∀ c ∈ cs, Json.isDigit c = true) (hword : Nat.ofDigitChars 10 cs 0 ≤ Json.maxWord) :
    parseLength ('+' :: cs) = some (Nat.ofDigitChars 10 cs 0) := by
  cases cs with
  | nil => exact absurd rfl hne
  | cons d ds => exact parseDigits_eq 0 hcs hword

/-! ### The lines of a frame -/

/-- What a length line says before the number. -/
def lengthName : List Char :=
  ['C', 'o', 'n', 't', 'e', 'n', 't', '-', 'L', 'e', 'n', 'g', 't', 'h']

/-- The line that tells the length of a body, without its line feed. -/
def lengthLine (n : Nat) : List Char := lengthName ++ ':' :: ' ' :: Nat.toDigits 10 n ++ ['\r']

theorem newline_not_mem_lengthLine (n : Nat) : '\n' ∉ lengthLine n := by
  intro h
  simp only [lengthLine, List.append_assoc, List.cons_append, List.mem_append, List.mem_cons,
    List.not_mem_nil, or_false] at h
  rcases h with h | h | h | h | h
  · revert h; decide
  · revert h; decide
  · revert h; decide
  · exact ne_of_isDigit (isDigit_of_mem_toDigits h) (by decide) rfl
  · revert h; decide

theorem toList_header (n : Nat) :
    (header n).toList = lengthLine n ++ ['\n', '\r', '\n'] := by
  have h : header n = "Content-Length: " ++ toString n ++ "\r\n\r\n" := rfl
  rw [h, String.toList_append, String.toList_append, Nat.toString_eq_repr, Nat.toList_repr]
  show _ = lengthName ++ _ ++ _ ++ _
  simp [lengthName]

theorem newline_not_mem_bytesOf_lengthLine (n : Nat) : (10 : UInt8) ∉ bytesOf (lengthLine n) :=
  newline_not_mem_bytesOf (newline_not_mem_lengthLine n)

theorem bytesOf_lengthLine_eq_cons (n : Nat) :
    bytesOf (lengthLine n) = 67 :: bytesOf (lengthLine n).tail := rfl

/-- The bytes of a frame, by its lines. -/
theorem write_eq (v : Json) : write v =
    bytesOf (lengthLine (Utf8.encode v.compact).length) ++
      10 :: 13 :: 10 :: Utf8.encode v.compact := by
  rw [write, encode_eq_bytesOf, toList_header, bytesOf_append, List.append_assoc]
  rfl

/-! ### Lines that tell a length -/

theorem splitColon_append {key value : List Char} (h : ':' ∉ key) :
    splitColon (key ++ ':' :: value) = some (key, value) := by
  have hkey : ∀ c ∈ key, decide (c ≠ ':') = true := fun c hc =>
    decide_eq_true fun heq => h (heq ▸ hc)
  rw [splitColon, List.dropWhile_append_of_pos hkey, List.takeWhile_append_of_pos hkey]
  simp

theorem eq_of_splitColon {cs key value : List Char} (h : splitColon cs = some (key, value)) :
    cs = key ++ ':' :: value := by
  rw [splitColon] at h
  split at h
  · next c rest hdrop =>
    obtain ⟨rfl, rfl⟩ := Prod.mk.inj (Option.some.inj h)
    have hhead := List.head?_dropWhile_not (fun c => decide (c ≠ ':')) cs
    rw [hdrop] at hhead
    obtain rfl : c = ':' := by simpa using hhead
    rw [← hdrop, List.takeWhile_append_dropWhile]
  · cases h

theorem of_mem_lengthKey {c : Char} {key : List Char} (hkey : key.map Char.toLower = lengthKey)
    (hc : c ∈ key) : c ≠ ':' ∧ Text.blank c = false := by
  have hlow : c.toLower ∈ lengthKey := hkey ▸ List.mem_map_of_mem hc
  have hkeys : (lengthKey.all fun d => d != ':' && !Text.blank d) = true := by decide
  have hall (d : Char) (hd : d ∈ lengthKey) : d ≠ ':' ∧ Text.blank d = false := by
    simpa using List.all_eq_true.1 hkeys d hd
  refine ⟨?_, Bool.eq_false_iff.2 fun hblank => ?_⟩
  · rintro rfl
    exact (hall _ hlow).1 rfl
  · rw [Text.toLower_of_blank hblank] at hlow
    rw [(hall _ hlow).2] at hblank
    cases hblank

/-- The parts of a line that tells a length: a length key in any letter case and a decimal number of
at most 64 bits, with a plus sign if it likes, and blank characters around both. -/
structure LengthLine where
  front : List Char
  key : List Char
  between : List Char
  gap : List Char
  sign : List Char
  digits : List Char
  tail : List Char
  blank_front : ∀ c ∈ front, Text.blank c = true
  key_eq : key.map Char.toLower = lengthKey
  blank_between : ∀ c ∈ between, Text.blank c = true
  blank_gap : ∀ c ∈ gap, Text.blank c = true
  sign_eq : sign = [] ∨ sign = ['+']
  digits_ne_nil : digits ≠ []
  isDigit_digits : ∀ c ∈ digits, Json.isDigit c = true
  le_maxWord : Nat.ofDigitChars 10 digits 0 ≤ Json.maxWord
  blank_tail : ∀ c ∈ tail, Text.blank c = true

namespace LengthLine
variable (l : LengthLine)

def text : List Char :=
  l.front ++ l.key ++ l.between ++ ':' :: (l.gap ++ l.sign ++ l.digits ++ l.tail)

def length : Nat := Nat.ofDigitChars 10 l.digits 0

theorem key_ne_nil : l.key ≠ [] := fun h => by
  have hkey := l.key_eq
  rw [h] at hkey
  cases hkey

theorem blank_last (pre : List Char) :
    ∀ c ∈ (pre ++ l.digits).getLast?, Text.blank c = false := by
  intro c hc
  rw [List.getLast?_append_of_ne_nil _ l.digits_ne_nil] at hc
  exact blank_of_isDigit (l.isDigit_digits c (List.mem_of_getLast? hc))

theorem trimChars_text : Text.trimChars l.text =
    l.key ++ l.between ++ ':' :: (l.gap ++ l.sign ++ l.digits) := by
  have h := Text.trimChars_append l.front
    (l.key ++ l.between ++ ':' :: (l.gap ++ l.sign ++ l.digits)) l.tail l.blank_front l.blank_tail
    (by simp) (fun c hc => by
      rw [List.append_assoc, List.head?_append_of_ne_nil _ l.key_ne_nil] at hc
      exact (of_mem_lengthKey l.key_eq (List.mem_of_head? hc)).2)
    (by simpa using l.blank_last (l.key ++ l.between ++ ':' :: (l.gap ++ l.sign)))
  rw [← h]
  simp [text]

theorem splitColon_trimmed :
    splitColon (l.key ++ l.between ++ ':' :: (l.gap ++ l.sign ++ l.digits)) =
      some (l.key ++ l.between, l.gap ++ l.sign ++ l.digits) :=
  splitColon_append fun hc => (List.mem_append.1 hc).elim
    (fun hc => (of_mem_lengthKey l.key_eq hc).1 rfl)
    (fun hc => Text.ne_colon_of_blank (l.blank_between _ hc) rfl)

theorem trimChars_key : Text.trimChars (l.key ++ l.between) = l.key :=
  Text.trimChars_append [] l.key l.between (by simp) l.blank_between l.key_ne_nil
    (fun _ hc => (of_mem_lengthKey l.key_eq (List.mem_of_head? hc)).2)
    (fun _ hc => (of_mem_lengthKey l.key_eq (List.mem_of_getLast? hc)).2)

theorem trimChars_value :
    Text.trimChars (l.gap ++ l.sign ++ l.digits) = l.sign ++ l.digits := by
  have hfirst : ∀ c ∈ (l.sign ++ l.digits).head?, Text.blank c = false := by
    intro c hc
    rcases List.mem_append.1 (List.mem_of_head? hc) with hc | hc
    · rcases l.sign_eq with h | h <;> rw [h] at hc
      · cases hc
      · rw [List.mem_singleton.1 hc]; rfl
    · exact blank_of_isDigit (l.isDigit_digits c hc)
  have h := Text.trimChars_append l.gap (l.sign ++ l.digits) [] l.blank_gap (by simp)
    (by simp [l.digits_ne_nil]) hfirst (l.blank_last l.sign)
  simpa using h

theorem parseLength_value : parseLength (l.sign ++ l.digits) = some l.length := by
  rcases l.sign_eq with h | h <;> rw [h]
  · exact parseLength_digits l.digits_ne_nil l.isDigit_digits l.le_maxWord
  · exact parseLength_plus l.digits_ne_nil l.isDigit_digits l.le_maxWord

end LengthLine

/-- What a line of a header block tells of the length of the body. A line that tells nothing of it
is not blank and does not name the length key before its first colon. -/
inductive Tells : List Char → Option Nat → Prop where
  | length (l : LengthLine) : Tells l.text (some l.length)
  | other {cs : List Char} (hne : ∃ c ∈ cs, Text.blank c = false)
      (hkey : ∀ front key between value, cs = front ++ key ++ between ++ ':' :: value →
        (∀ c ∈ front, Text.blank c = true) → (∀ c ∈ between, Text.blank c = true) →
        key.map Char.toLower ≠ lengthKey) :
      Tells cs none

/-! ### Reading lines -/

theorem readLine_length (l : LengthLine) : readLine (bytesOf l.text) = .length l.length := by
  rw [readLine, Utf8.decodeChars_bytesOf]
  simp only [l.trimChars_text]
  split
  · next h => simp at h
  · next h =>
    simp only [l.splitColon_trimmed, l.trimChars_key, l.key_eq, ↓reduceIte, l.trimChars_value,
      l.parseLength_value]

theorem readLine_blank {cs : List Char} (h : ∀ c ∈ cs, Text.blank c = true) :
    readLine (bytesOf cs) = .blank := by
  rw [readLine, Utf8.decodeChars_bytesOf]
  simp only [Text.trimChars_of_blank h]

/-- The line that the reader trims, splits and trims again is one that `Tells` nothing. -/
theorem readLine_other {cs : List Char} (h : Tells cs none) : readLine (bytesOf cs) = .other := by
  cases h with
  | other hne hkey =>
    obtain ⟨front, tail, hcs, hfront, -⟩ := Text.trimChars_spec cs
    rw [readLine, Utf8.decodeChars_bytesOf]
    simp only
    split
    · next hnil =>
      obtain ⟨c, hc, hblank⟩ := hne
      rw [Text.blank_of_trimChars_eq_nil hnil c hc] at hblank
      cases hblank
    · split
      · rfl
      · next key value hsplit =>
        obtain ⟨pre, post, hkeyEq, hpre, hpost⟩ := Text.trimChars_spec key
        refine if_neg (hkey (front ++ pre) (Text.trimChars key) post (value ++ tail) ?_
          (fun c hc => (List.mem_append.1 hc).elim (hfront c) (hpre c)) hpost)
        -- what surrounds the key is blank, so the line would tell of the key itself
        calc cs = front ++ (key ++ ':' :: value) ++ tail := by rwa [← eq_of_splitColon hsplit]
          _ = front ++ ((pre ++ Text.trimChars key ++ post) ++ ':' :: value) ++ tail := by
            rw [← hkeyEq]
          _ = front ++ pre ++ Text.trimChars key ++ post ++ ':' :: (value ++ tail) := by simp

/-- The first line of a frame, with its line feed. -/
def firstLine {n : Nat} (hn : n ≤ Json.maxWord) : LengthLine where
  front := []
  key := lengthName
  between := []
  gap := [' ']
  sign := []
  digits := Nat.toDigits 10 n
  tail := ['\r', '\n']
  blank_front := by simp
  key_eq := rfl
  blank_between := by simp
  blank_gap := List.all_eq_true.1 (by decide)
  sign_eq := .inl rfl
  digits_ne_nil := Nat.toDigits_ne_nil
  isDigit_digits _ hc := isDigit_of_mem_toDigits hc
  le_maxWord := by rw [Nat.ofDigitChars_ten_toDigits]; exact hn
  blank_tail := List.all_eq_true.1 (by decide)

theorem text_firstLine {n : Nat} (hn : n ≤ Json.maxWord) :
    (firstLine hn).text = lengthLine n ++ ['\n'] := by
  simp [LengthLine.text, firstLine, lengthLine]

theorem readLine_lengthLine {n : Nat} (hn : n ≤ Json.maxWord) :
    readLine (bytesOf (lengthLine n) ++ [10]) = .length n := by
  have hbytes : bytesOf (lengthLine n) ++ [10] = bytesOf (firstLine hn).text := by
    rw [text_firstLine, bytesOf_append]; rfl
  rw [hbytes, readLine_length]
  exact congrArg Line.length Nat.ofDigitChars_ten_toDigits

/-- A line that begins with a letter is not blank. -/
theorem readLine_ne_blank (bytes : List UInt8) : readLine (67 :: bytes) ≠ .blank := by
  rw [readLine]
  cases h : Utf8.decodeChars (67 :: bytes) with
  | error m => simp
  | ok cs =>
    have h' : Utf8.decodeFrom ['C'] 1 none bytes = .ok cs := h
    obtain ⟨more, rfl⟩ := Utf8.decodeFrom_ok h'
    have hne := Text.trimChars_cons_ne_nil (c := 'C') more (by decide)
    simp only
    split
    · next heq => exact absurd heq hne
    · split
      · simp
      · split_ifs
        · split <;> simp
        · simp

theorem isRecoverable_of_readLine {bytes : List UInt8} {e : FrameError}
    (h : readLine bytes = .bad e) : e.isRecoverable = false := by
  rw [readLine] at h
  split at h
  · cases h; rfl
  · split at h
    · cases h
    · split at h
      · cases h
      · split_ifs at h
        simp only at h
        split at h
        · cases h
        · cases h; rfl

/-! ### Going through the bytes of a header -/

theorem readHeaders_append {bytes : List UInt8} (h : (10 : UInt8) ∉ bytes) (ended seen : Bool)
    (length : Option Nat) (line rest : List UInt8) :
    readHeaders ended seen length line (bytes ++ rest) =
      readHeaders ended seen length (bytes.reverse ++ line) rest := by
  induction bytes generalizing line with
  | nil => rfl
  | cons b bytes ih =>
    have hb : b ≠ 10 := fun hb => h (hb ▸ List.mem_cons_self ..)
    rw [List.cons_append, readHeaders, if_neg hb, ih fun hb => h (List.mem_cons_of_mem _ hb)]
    simp

/-- The first line of a frame is read. -/
theorem readHeaders_lengthLine {n : Nat} (hn : n ≤ Json.maxWord) (ended : Bool)
    (rest : List UInt8) :
    readHeaders ended false none [] (bytesOf (lengthLine n) ++ 10 :: rest) =
      readHeaders ended true (some n) [] rest := by
  rw [readHeaders_append (newline_not_mem_bytesOf_lengthLine n), readHeaders, if_pos rfl]
  simp only [List.append_nil, List.reverse_cons, List.reverse_reverse, readLine_lengthLine hn]

/-- The stream ends within the first line. -/
theorem readHeaders_of_lengthLine_cut {n : Nat} {bytes more : List UInt8}
    (h : bytesOf (lengthLine n) = bytes ++ more) (hne : bytes ≠ []) :
    ∃ e, readHeaders true false none [] bytes = .failed e ∧ e.isRecoverable = false := by
  -- the line break is behind the cut, so the line is all there is and has no end
  have hnot : (10 : UInt8) ∉ bytes := fun hmem =>
    newline_not_mem_bytesOf_lengthLine n (h ▸ List.mem_append_left _ hmem)
  obtain ⟨tail, rfl⟩ : ∃ tail, bytes = 67 :: tail := by
    cases bytes with
    | nil => exact absurd rfl hne
    | cons b tail =>
      rw [bytesOf_lengthLine_eq_cons, List.cons_append] at h
      exact ⟨tail, by rw [(List.cons.inj h).1]⟩
  have hread := readHeaders_append hnot true false none [] []
  rw [List.append_nil, List.append_nil] at hread
  rw [hread, readHeaders, List.reverse_reverse]
  simp only [Bool.not_true, Bool.false_eq_true, ↓reduceIte, List.isEmpty_reverse,
    List.isEmpty_cons]
  cases hl : readLine (67 :: tail) with
  | blank => exact absurd hl (readLine_ne_blank tail)
  | bad e => exact ⟨e, rfl, isRecoverable_of_readLine hl⟩
  | length n => exact ⟨_, rfl, rfl⟩
  | other => exact ⟨_, rfl, rfl⟩

end Frame

end LspClient
