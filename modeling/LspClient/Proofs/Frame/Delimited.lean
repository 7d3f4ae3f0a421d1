import LspClient.Proofs.Frame.Stream

/-!
# Frames of other writers

`Frame.write` writes one header line; another writer may spell it otherwise, repeat it and put other
headers around it. A `HeaderBlock` is whatever may stand before a body, and the last of its lengths
counts. Whatever the body is, a frame with such a header block is taken off exactly (`delimited`):
the reader waits for the whole of it and answers by the body alone, and what comes behind is read
as if nothing had come before (`events_of_leaving`).
-/

namespace LspClient.Frame

/-! ### Header blocks -/

/-- A line ends with its only line feed. -/
def IsLine (cs : List Char) : Prop := ∃ front, cs = front ++ ['\n'] ∧ '\n' ∉ front

/-- A line of a header block, and the length it tells. -/
structure HeaderLine where
  text : List Char
  told : Option Nat
  isLine : IsLine text
  tells : Tells text told

/-- Header lines and the blank line behind them. -/
structure HeaderBlock where
  lines : List HeaderLine
  last : List Char
  isLine_last : IsLine last
  blank_last : ∀ c ∈ last, Text.blank c = true

/-- The bytes of header lines. -/
def bytesOfLines (lines : List HeaderLine) : List UInt8 := lines.flatMap fun l => bytesOf l.text

/-- The last length that some lines tell. -/
def lastLength (lines : List HeaderLine) : Option Nat := (lines.filterMap (·.told)).getLast?

namespace HeaderBlock

def bytes (b : HeaderBlock) : List UInt8 := bytesOfLines b.lines ++ bytesOf b.last

def length? (b : HeaderBlock) : Option Nat := lastLength b.lines

end HeaderBlock

theorem lastLength_cons (l : HeaderLine) (ls : List HeaderLine) (length : Option Nat) :
    (lastLength (l :: ls)).or length = (lastLength ls).or (l.told.or length) := by
  unfold lastLength
  cases h : l.told with
  | none => simp [h]
  | some n => simp [h, List.getLast?_cons]

/-! ### Reading header blocks -/

/-- How the headers go on behind a line. -/
def afterLine (ended : Bool) (length : Option Nat) (rest : List UInt8) : Line → Headers
  | .blank => .complete length rest
  | .length n => readHeaders ended true (some n) [] rest
  | .other => readHeaders ended true length [] rest
  | .bad e => .failed e

theorem readHeaders_line {cs : List Char} (hline : IsLine cs) (ended seen : Bool)
    (length : Option Nat) (rest : List UInt8) :
    readHeaders ended seen length [] (bytesOf cs ++ rest) =
      afterLine ended length rest (readLine (bytesOf cs)) := by
  obtain ⟨front, rfl, hfront⟩ := hline
  have hbytes : bytesOf (front ++ ['\n']) = bytesOf front ++ [10] := by rw [bytesOf_append]; rfl
  rw [hbytes, List.append_assoc, readHeaders_append (newline_not_mem_bytesOf hfront),
    List.singleton_append, readHeaders, if_pos rfl, List.append_nil, List.reverse_cons,
    List.reverse_reverse]
  rfl

theorem readHeaders_cons (l : HeaderLine) (ended seen : Bool) (length : Option Nat)
    (rest : List UInt8) : readHeaders ended seen length [] (bytesOf l.text ++ rest) =
      readHeaders ended true (l.told.or length) [] rest := by
  rw [readHeaders_line l.isLine]
  obtain ⟨text, told, isLine, tells⟩ := l
  cases tells with
  | length l => rw [readLine_length l]; rfl
  | other hne hkey => rw [readLine_other (.other hne hkey)]; rfl

/-- The last length that the lines tell counts, and before them the one that was told already. -/
theorem readHeaders_lines (b : HeaderBlock) (ended : Bool) (rest : List UInt8)
    (lines : List HeaderLine) (seen : Bool) (length : Option Nat) :
    readHeaders ended seen length [] (bytesOfLines lines ++ (bytesOf b.last ++ rest)) =
      .complete ((lastLength lines).or length) rest := by
  induction lines generalizing seen length with
  | nil =>
    have hlast := readHeaders_line b.isLine_last ended seen length rest
    rwa [readLine_blank b.blank_last] at hlast
  | cons l ls ih =>
    rw [lastLength_cons, ← ih true, bytesOfLines, List.flatMap_cons, List.append_assoc,
      readHeaders_cons]
    rfl

theorem readHeaders_block (b : HeaderBlock) (ended : Bool) (rest : List UInt8) :
    readHeaders ended false none [] (b.bytes ++ rest) = .complete b.length? rest := by
  have h := readHeaders_lines b ended rest b.lines false none
  rw [Option.or_none] at h
  rw [HeaderBlock.bytes, List.append_assoc]
  exact h

/-- As long as the last byte of the headers is missing, more is asked for. -/
theorem readHeaders_of_missing {part more rest : List UInt8} {seen : Bool}
    {length n : Option Nat} {line : List UInt8}
    (h : readHeaders false seen length line (part ++ more) = .complete n rest)
    (hmissing : rest.length < more.length) :
    readHeaders false seen length line part = .more := by
  induction part generalizing seen length line with
  | nil => rfl
  | cons b part ih =>
    rw [List.cons_append, readHeaders] at h
    rw [readHeaders]
    split_ifs at h ⊢
    · split at h
      · cases h
        rw [List.length_append] at hmissing
        omega
      · exact ih h
      · exact ih h
      · cases h
    · exact ih h

/-! ### Readings that leave a rest -/

namespace Event

/-- The reading of `e` that leaves `rest`. -/
def leaving (rest : List UInt8) : Event → Read
  | .frame v => .frame v rest
  | .failed e => .failed e rest
  | .ended => .ended

/-- Whether there is anything to read behind `e`. -/
def goesOn : Event → Bool
  | .frame _ => true
  | .failed e => e.isRecoverable
  | .ended => false

end Event

/-- The headers and the blank line behind them are some bytes. -/
theorem length_lt_of_readHeaders {ended seen : Bool} {length n : Option Nat}
    {line bytes rest : List UInt8}
    (h : readHeaders ended seen length line bytes = .complete n rest) :
    rest.length < bytes.length + line.length := by
  -- by induction on the bytes: each one goes to the line that is being read or ends it
  induction bytes generalizing seen length line with
  | nil =>
    rw [readHeaders] at h
    cases line with
    | nil =>
      simp only [List.isEmpty_nil, ↓reduceIte] at h
      split_ifs at h
    | cons b line =>
      split_ifs at h
      split at h
      · cases h
        simp
      · cases h
      · cases h
  | cons b bytes ih =>
    rw [readHeaders] at h
    rw [List.length_cons]
    split_ifs at h
    · split at h
      · cases h
        omega
      · exact Nat.lt_add_right _ (Nat.lt_succ_of_lt (ih h))
      · exact Nat.lt_add_right _ (Nat.lt_succ_of_lt (ih h))
      · cases h
    · have hrest := ih h
      rw [List.length_cons] at hrest
      omega

theorem isRecoverable_of_readHeaders {ended seen : Bool} {length : Option Nat}
    {line bytes : List UInt8} {e : FrameError}
    (h : readHeaders ended seen length line bytes = .failed e) : e.isRecoverable = false := by
  induction bytes generalizing seen length line with
  | nil =>
    rw [readHeaders] at h
    split_ifs at h
    · cases h; rfl
    · split at h
      · cases h
      · next hline => cases h; exact isRecoverable_of_readLine hline
      · cases h; rfl
  | cons b bytes ih =>
    rw [readHeaders] at h
    split_ifs at h
    · split at h
      · cases h
      · exact ih h
      · exact ih h
      · next hline => cases h; exact isRecoverable_of_readLine hline
    · exact ih h

theorem length_le_of_skip? {n : Nat} {bytes rest : List UInt8} (h : skip? n bytes = some rest) :
    rest.length ≤ bytes.length := by
  induction n generalizing bytes with
  | zero =>
    cases h
    exact Nat.le_refl _
  | succ n ih =>
    cases bytes with
    | nil => cases h
    | cons b bytes => exact Nat.le_succ_of_le (ih h)

theorem length_le_of_readBody {e : Event} {n : Nat} {bytes rest : List UInt8}
    (h : readBody true n bytes = e.leaving rest) (he : e.goesOn = true) :
    rest.length ≤ bytes.length := by
  rw [readBody] at h
  cases hskip : skip? n bytes with
  | none =>
    rw [hskip] at h
    cases e <;> cases h
    cases he
  | some behind =>
    have hle := length_le_of_skip? hskip
    simp only [hskip] at h
    split_ifs at h
    · cases e <;> cases h
      exact hle
    · split at h <;> cases e <;> cases h
      · exact hle
      · exact hle

theorem length_lt_of_read {e : Event} {bytes rest : List UInt8}
    (h : read true bytes = e.leaving rest) (he : e.goesOn = true) :
    rest.length < bytes.length := by
  rw [read] at h
  split at h
  · next hheaders =>
    have := length_lt_of_readHeaders hheaders
    have := length_le_of_readBody h he
    rw [List.length_nil] at *
    omega
  · cases e <;> cases h
    cases he
  · next hheaders =>
    cases e <;> cases h
    have hfatal := isRecoverable_of_readHeaders hheaders
    rw [Event.goesOn, hfatal] at he
    cases he
  · cases e <;> cases h
    cases he
  · cases e <;> cases h

/-- Turns that are not needed change nothing. -/
theorem readAll_enough {bytes : List UInt8} {m n : Nat} (hm : bytes.length < m)
    (hn : bytes.length < n) : readAll m bytes = readAll n bytes := by
  induction m generalizing n bytes with
  | zero => exact absurd hm (Nat.not_lt_zero _)
  | succ m ih =>
    obtain ⟨n, rfl⟩ : ∃ k, n = k + 1 := ⟨n - 1, by omega⟩
    rw [readAll, readAll]
    cases hread : read true bytes with
    | frame v rest =>
      have := length_lt_of_read (e := .frame v) hread rfl
      have hrest : readAll m rest = readAll n rest := ih (by omega) (by omega)
      simp only [hrest]
    | failed e rest =>
      cases he : e.isRecoverable with
      | false => simp [he]
      | true =>
        have := length_lt_of_read (e := .failed e) hread he
        have hrest : readAll m rest = readAll n rest := ih (by omega) (by omega)
        simp only [he, ↓reduceIte, hrest]
    | ended => rfl
    | more => rfl

/-- What is read behind a reading is what the rest holds by itself. -/
theorem events_of_leaving {e : Event} {bytes rest : List UInt8}
    (h : read true bytes = e.leaving rest) (he : e.goesOn = true) :
    events bytes = e :: events rest := by
  have hlt := length_lt_of_read h he
  have hmore : readAll (rest.length + 1) rest = readAll bytes.length rest :=
    readAll_enough (Nat.lt_succ_self _) hlt
  rw [events, events, hmore, readAll, h]
  cases e with
  | frame v => rfl
  | failed e =>
    have hrecoverable : e.isRecoverable = true := he
    simp [Event.leaving, hrecoverable]
  | ended => cases he

/-! ### Delimited frames -/

/-- The answer to a body. -/
inductive Answers (body : List UInt8) : Event → Prop where
  | frame {v : Json} (hsize : body.length ≤ maxBytes) (hparse : Json.parseBytes body = some v) :
      Answers body (.frame v)
  | invalidBody (hsize : body.length ≤ maxBytes) (hparse : Json.parseBytes body = none) :
      Answers body (.failed .invalidBody)
  | oversized (hsize : maxBytes < body.length) : Answers body (.failed (.oversized body.length))

theorem exists_answers (body : List UInt8) : ∃ e, Answers body e := by
  by_cases hsize : body.length ≤ maxBytes
  · cases hparse : Json.parseBytes body with
    | none => exact ⟨_, .invalidBody hsize hparse⟩
    | some v => exact ⟨_, .frame hsize hparse⟩
  · exact ⟨_, .oversized (Nat.not_le.1 hsize)⟩

namespace Answers
variable {body : List UInt8} {e : Event}

/-- The answer to a body is never the end of the stream. -/
theorem goesOn (h : Answers body e) : e.goesOn = true := by
  cases h <;> rfl

theorem readBody_append (h : Answers body e) (ended : Bool) (rest : List UInt8) :
    readBody ended body.length (body ++ rest) = e.leaving rest := by
  rw [readBody, skip?_append]
  cases h with
  | frame hsize hparse =>
    simp only [Nat.not_lt.2 hsize, ↓reduceIte, List.take_left, hparse, Event.leaving]
  | invalidBody hsize hparse =>
    simp only [Nat.not_lt.2 hsize, ↓reduceIte, List.take_left, hparse, Event.leaving]
  | oversized hsize => simp only [gt_iff_lt, hsize, ↓reduceIte, Event.leaving]

end Answers

theorem read_of_short {b : HeaderBlock} {body front : List UInt8}
    (hlength : b.length? = some body.length) (hshort : front.length < body.length) :
    read false (b.bytes ++ front) = .more := by
  rw [read, readHeaders_block, hlength]
  simp only [readBody, skip?_eq_none hshort]
  rfl

/-- A frame is not answered before the whole of it is there. -/
theorem read_of_missing {b : HeaderBlock} {body part more : List UInt8}
    (hlength : b.length? = some body.length) (h : b.bytes ++ body = part ++ more)
    (hmore : more ≠ []) : read false part = .more := by
  have hpos := List.length_pos_iff.2 hmore
  rcases List.append_eq_append_iff.1 h with ⟨front, rfl, rfl⟩ | ⟨missing, hblock, rfl⟩
  · exact read_of_short hlength (by rw [List.length_append]; omega)
  · cases missing with
    | nil =>
      have hshort : read false (b.bytes ++ []) = .more := read_of_short hlength hpos
      rwa [hblock, List.append_nil, List.append_nil] at hshort
    | cons c missing =>
      have hread := readHeaders_block b false body
      rw [hblock, List.append_assoc] at hread
      have hlt : body.length < (c :: missing ++ body).length := by
        rw [List.length_append, List.length_cons]
        omega
      rw [read, readHeaders_of_missing hread hlt]

/-- A frame whose last Content-Length is the length of its body is taken off exactly, whatever
stands in its headers and its body: the reader asks for more as long as a byte of it is missing,
then gives the answer to the body and leaves what comes behind, and goes on with that as if it had
never read anything else. -/
theorem delimited (b : HeaderBlock) {body : List UInt8} (hlength : b.length? = some body.length)
    (rest : List UInt8) :
    ∃ e, Answers body e ∧
      (∀ ended, read ended (b.bytes ++ body ++ rest) = e.leaving rest) ∧
      (∀ error, e = .failed error → error.isRecoverable = true) ∧
      events (b.bytes ++ body ++ rest) = e :: events rest ∧
      ∀ part more, b.bytes ++ body = part ++ more → more ≠ [] → read false part = .more := by
  obtain ⟨e, he⟩ := exists_answers body
  have hread : ∀ ended, read ended (b.bytes ++ body ++ rest) = e.leaving rest := by
    intro ended
    rw [List.append_assoc, read, readHeaders_block, hlength]
    exact he.readBody_append ended rest
  refine ⟨e, he, hread, ?_, events_of_leaving (hread true) he.goesOn,
    fun _ _ => read_of_missing hlength⟩
  rintro error rfl
  exact he.goesOn

/-- A line that is too short for a length key tells nothing. -/
theorem Tells.short {cs : List Char} (hne : ∃ c ∈ cs, Text.blank c = false)
    (hshort : cs.length ≤ lengthKey.length) : Tells cs none := by
  refine .other hne fun front key between value hcs _ _ hkey => ?_
  have hlength := congrArg List.length hkey
  rw [List.length_map] at hlength
  rw [hcs, List.length_append, List.length_append, List.length_append, List.length_cons] at hshort
  omega

/-- Two lengths in odd spellings behind a header of another kind. -/
def oddBlock : HeaderBlock where
  lines := [
    { text := ['é', ':', ' ', ':', '\n'], told := none
      isLine := ⟨['é', ':', ' ', ':'], rfl, by decide⟩
      tells := .short ⟨'é', by decide, by decide⟩ (by decide) },
    { text := _, told := _, isLine := ⟨"\tCONTENT-LENGTH\t:\t+7".toList, rfl, by decide⟩
      tells := .length {
        front := ['\t'], key := "CONTENT-LENGTH".toList, between := ['\t'], gap := ['\t']
        sign := ['+'], digits := ['7'], tail := ['\n']
        blank_front := List.all_eq_true.1 (by decide), key_eq := by decide
        blank_between := List.all_eq_true.1 (by decide)
        blank_gap := List.all_eq_true.1 (by decide)
        sign_eq := .inr rfl, digits_ne_nil := by simp
        isDigit_digits := List.all_eq_true.1 (by decide)
        le_maxWord := by decide, blank_tail := List.all_eq_true.1 (by decide) } },
    { text := _, told := _
      isLine := ⟨" \tContent-length\t:\t+04 \r".toList, rfl, by decide⟩
      tells := .length {
        front := [' ', '\t'], key := "Content-length".toList, between := ['\t'], gap := ['\t']
        sign := ['+'], digits := ['0', '4'], tail := [' ', '\r', '\n']
        blank_front := List.all_eq_true.1 (by decide), key_eq := by decide
        blank_between := List.all_eq_true.1 (by decide)
        blank_gap := List.all_eq_true.1 (by decide)
        sign_eq := .inr rfl, digits_ne_nil := by simp
        isDigit_digits := List.all_eq_true.1 (by decide)
        le_maxWord := by decide, blank_tail := List.all_eq_true.1 (by decide) } }]
  last := ['\t', '\n']
  isLine_last := ⟨['\t'], rfl, by decide⟩
  blank_last := List.all_eq_true.1 (by decide)

theorem length?_oddBlock : oddBlock.length? = some 4 := rfl

/-- A body that is no JSON, behind odd headers. -/
theorem delimited_oddBlock : oddBlock.length? = some [110, 117, 108, 33].length ∧
    ∃ e, Answers [110, 117, 108, 33] e ∧
      (∀ ended, read ended (oddBlock.bytes ++ [110, 117, 108, 33] ++ [13, 10]) =
        e.leaving [13, 10]) ∧
      (∀ error, e = .failed error → error.isRecoverable = true) ∧
      events (oddBlock.bytes ++ [110, 117, 108, 33] ++ [13, 10]) = e :: events [13, 10] ∧
      ∀ part more, oddBlock.bytes ++ [110, 117, 108, 33] = part ++ more → more ≠ [] →
        read false part = .more :=
  ⟨length?_oddBlock, @delimited oddBlock [110, 117, 108, 33] length?_oddBlock [13, 10]⟩

end LspClient.Frame
