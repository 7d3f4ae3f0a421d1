import LspClient.Proofs.Frame.Header

/-!
# Streams of frames

A stream of frames is read back frame by frame (`read_write_append`), and a stream that ends within
a frame ends with an error that cannot be passed (`read_of_write_cut`). Together they say what is
read from a stream that is cut at any byte (`events_take_stream`).

That a body is read back is the business of the JSON parser and printer, and is assumed of the
values here.
-/

namespace LspClient.Frame

/-- A value that the parser reads back from its printed form, which is short enough for a frame. -/
structure Carried (v : Json) : Prop where
  parse : Json.parseBytes (Utf8.encode v.compact) = some v
  length_le : (Utf8.encode v.compact).length ≤ maxBytes

theorem Carried.length_pos {v : Json} (hv : Carried v) : 0 < (Utf8.encode v.compact).length := by
  refine Nat.pos_of_ne_zero fun h => ?_
  have hparse := hv.parse
  rw [List.length_eq_zero_iff.1 h] at hparse
  have hnone : Json.parseBytes [] = none := rfl
  rw [hnone] at hparse
  cases hparse

theorem Carried.le_maxWord {v : Json} (hv : Carried v) :
    (Utf8.encode v.compact).length ≤ Json.maxWord :=
  Nat.le_trans hv.length_le (by decide)

theorem length_write_pos (v : Json) : 0 < (write v).length := by
  rw [write_eq, List.length_append, List.length_cons]
  omega

/-! ### Bodies -/

theorem skip?_append (bytes rest : List UInt8) :
    skip? bytes.length (bytes ++ rest) = some rest := by
  induction bytes with
  | nil => rfl
  | cons b bytes ih => exact ih

theorem skip?_eq_none {n : Nat} {bytes : List UInt8} (h : bytes.length < n) :
    skip? n bytes = none := by
  induction n generalizing bytes with
  | zero => omega
  | succ n ih =>
    cases bytes with
    | nil => rfl
    | cons b bytes => exact ih (by simpa using h)

theorem readBody_append {v : Json} (hv : Carried v) (ended : Bool) (rest : List UInt8) :
    readBody ended (Utf8.encode v.compact).length (Utf8.encode v.compact ++ rest) =
      .frame v rest := by
  simp only [readBody, skip?_append, Nat.not_lt.2 hv.length_le, ↓reduceIte, List.take_left,
    hv.parse]

theorem readBody_of_short {n : Nat} {bytes : List UInt8} (h : bytes.length < n) :
    readBody true n bytes = .failed (.unexpectedEnd .body) [] := by
  simp only [readBody, skip?_eq_none h, ↓reduceIte]

/-! ### One frame -/

theorem read_write_append {v : Json} (hv : Carried v) (ended : Bool) (rest : List UInt8) :
    read ended (write v ++ rest) = .frame v rest := by
  have hheaders : readHeaders ended false none [] (write v ++ rest) =
      .complete (some (Utf8.encode v.compact).length) (Utf8.encode v.compact ++ rest) := by
    have hblank : readLine [13, 10] = .blank := rfl
    rw [write_eq, List.append_assoc, List.cons_append, readHeaders_lengthLine hv.le_maxWord]
    simp [readHeaders, hblank]
  rw [read, hheaders]
  exact readBody_append hv ended rest

/-- A stream that ends within a frame ends with an error that cannot be passed. The frame may be
cut in its first line, before, within or behind the blank line, or in its body. -/
theorem read_of_write_cut {v : Json} (hv : Carried v) {bytes more : List UInt8}
    (h : write v = bytes ++ more) (hbytes : bytes ≠ []) (hmore : more ≠ []) :
    ∃ e rest, read true bytes = .failed e rest ∧ e.isRecoverable = false := by
  rw [write_eq] at h
  -- the cut is in the length line, in the blank line behind it, or in the body
  rcases List.append_eq_append_iff.1 h with ⟨behind, rfl, hrest⟩ | ⟨behind, hline, -⟩
  · match behind with
    | [] =>
      rw [List.append_nil]
      rw [List.append_nil] at hbytes
      obtain ⟨e, hread, he⟩ := readHeaders_of_lengthLine_cut (List.append_nil _).symm hbytes
      exact ⟨e, [], by rw [read, hread], he⟩
    | [b] =>
      obtain ⟨rfl, -⟩ := List.cons.inj hrest
      refine ⟨.unexpectedEnd .headers, [], ?_, rfl⟩
      rw [read, readHeaders_lengthLine hv.le_maxWord]
      rfl
    | [b, c] =>
      simp only [List.cons_append, List.cons.injEq] at hrest
      obtain ⟨rfl, rfl, -⟩ := hrest
      refine ⟨.unexpectedEnd .body, [], ?_, rfl⟩
      rw [read, readHeaders_lengthLine hv.le_maxWord]
      exact readBody_of_short hv.length_pos
    | b :: c :: d :: body =>
      simp only [List.cons_append, List.cons.injEq] at hrest
      obtain ⟨rfl, rfl, rfl, hbody⟩ := hrest
      refine ⟨.unexpectedEnd .body, [], ?_, rfl⟩
      have hshort : body.length < (Utf8.encode v.compact).length := by
        rw [hbody, List.length_append]
        have := List.length_pos_iff.2 hmore
        omega
      rw [read, readHeaders_lengthLine hv.le_maxWord]
      exact readBody_of_short hshort
  · obtain ⟨e, hread, he⟩ := readHeaders_of_lengthLine_cut hline hbytes
    exact ⟨e, [], by rw [read, hread], he⟩

/-! ### Streams -/

/-- The stream of some values. -/
def stream (vs : List Json) : List UInt8 := vs.flatMap write

@[simp] theorem stream_nil : stream [] = [] := rfl

@[simp] theorem stream_cons (v : Json) (vs : List Json) : stream (v :: vs) = write v ++ stream vs :=
  List.flatMap_cons

/-- `n` is the number of values whose frames lie wholly within the first `k` bytes. -/
structure WholeFrames (vs : List Json) (k n : Nat) : Prop where
  le_length : n ≤ vs.length
  le : (stream (vs.take n)).length ≤ k
  greatest : ∀ m ≤ vs.length, (stream (vs.take m)).length ≤ k → m ≤ n

namespace WholeFrames

theorem zero {vs : List Json} {k : Nat} (h : ∀ v ∈ vs.head?, k < (write v).length) :
    WholeFrames vs k 0 where
  le_length := Nat.zero_le _
  le := Nat.zero_le _
  greatest m hm hle := by
    cases vs with
    | nil => exact hm
    | cons v vs =>
      cases m with
      | zero => exact Nat.le_refl _
      | succ m =>
        have := h v rfl
        simp only [List.take_succ_cons, stream_cons, List.length_append] at hle
        omega

theorem succ {v : Json} {vs : List Json} {k n : Nat} (h : WholeFrames vs k n) :
    WholeFrames (v :: vs) ((write v).length + k) (n + 1) where
  le_length := Nat.succ_le_succ h.le_length
  le := by
    have := h.le
    simp only [List.take_succ_cons, stream_cons, List.length_append]
    omega
  greatest m hm hle := by
    cases m with
    | zero => exact Nat.zero_le _
    | succ m =>
      simp only [List.take_succ_cons, stream_cons, List.length_append] at hle
      exact Nat.succ_le_succ (h.greatest m (Nat.le_of_succ_le_succ hm) (by omega))

end WholeFrames

/-- How a stream ends that is read to its end: cleanly between two frames, and otherwise with an
error that cannot be passed. -/
def Closes (between : Prop) (last : Event) : Prop :=
  (between → last = .ended) ∧ (¬ between → ∃ e, last = .failed e ∧ e.isRecoverable = false)

/-- Enough turns read everything there is in a stream that ends after `k` bytes. -/
theorem readAll_take_stream {vs : List Json} (hvs : ∀ v ∈ vs, Carried v) {k fuel : Nat}
    (hk : k ≤ (stream vs).length) (hfuel : k < fuel) :
    ∃ n, WholeFrames vs k n ∧ ∃ last, Closes (k = (stream (vs.take n)).length) last ∧
      readAll fuel ((stream vs).take k) = (vs.take n).map .frame ++ [last] := by
  obtain ⟨fuel, rfl⟩ : ∃ f, fuel = f + 1 := ⟨fuel - 1, by omega⟩
  -- by induction on the values: the first frame is whole, or the cut is in it
  induction vs generalizing k fuel with
  | nil =>
    obtain rfl : k = 0 := by rwa [stream_nil, List.length_nil, Nat.le_zero] at hk
    exact ⟨0, .zero (by simp), .ended, ⟨fun _ => rfl, fun h => absurd rfl h⟩, rfl⟩
  | cons v vs ih =>
    have hv := hvs v (List.mem_cons_self ..)
    rw [stream_cons] at hk ⊢
    by_cases hwhole : (write v).length ≤ k
    · obtain ⟨j, rfl⟩ := Nat.exists_eq_add_of_le hwhole
      have hpos := length_write_pos v
      obtain ⟨f, rfl⟩ : ∃ f, fuel = f + 1 := ⟨fuel - 1, by omega⟩
      obtain ⟨n, hn, last, hlast, hread⟩ := ih (fun w hw => hvs w (List.mem_cons_of_mem _ hw))
        (k := j) (by rw [List.length_append] at hk; omega) f (by omega)
      refine ⟨n + 1, hn.succ, last, ?_, ?_⟩
      · simpa only [List.take_succ_cons, stream_cons, List.length_append, Nat.add_left_cancel_iff]
          using hlast
      · rw [List.take_length_add_append, readAll, read_write_append hv]
        simp only [hread, List.take_succ_cons, List.map_cons, List.cons_append]
    · have hcut : k < (write v).length := Nat.not_le.1 hwhole
      refine ⟨0, .zero (by simpa using hcut), ?_⟩
      rw [List.take_append_of_le_length (Nat.le_of_lt hcut)]
      cases k with
      | zero => exact ⟨.ended, ⟨fun _ => rfl, fun h => absurd rfl h⟩, rfl⟩
      | succ k =>
        have hbytes : (write v).take (k + 1) ≠ [] := fun h => by
          have hlen := congrArg List.length h
          rw [List.length_take, List.length_nil] at hlen
          omega
        have hmore : (write v).drop (k + 1) ≠ [] := fun h => by
          have hlen := congrArg List.length h
          rw [List.length_drop, List.length_nil] at hlen
          omega
        obtain ⟨e, rest, hread, he⟩ :=
          read_of_write_cut hv (List.take_append_drop (k + 1) (write v)).symm hbytes hmore
        refine ⟨.failed e, ⟨fun h => by simp at h, fun _ => ⟨e, rfl, he⟩⟩, ?_⟩
        rw [readAll, hread]
        simp [he]

/-- What is read from the first `k` bytes of a stream of values: those whose frames lie wholly
within them, in order, and then a clean end between two frames or else one error that cannot be
passed. -/
theorem events_take_stream {vs : List Json} (hvs : ∀ v ∈ vs, Carried v) {k : Nat}
    (hk : k ≤ (stream vs).length) :
    ∃ n, WholeFrames vs k n ∧ ∃ last, Closes (k = (stream (vs.take n)).length) last ∧
      events ((stream vs).take k) = (vs.take n).map .frame ++ [last] :=
  readAll_take_stream hvs hk (by rw [List.length_take]; omega)

/-- A stream that is not cut is read back whole. -/
theorem events_stream {vs : List Json} (hvs : ∀ v ∈ vs, Carried v) :
    events (stream vs) = vs.map .frame ++ [.ended] := by
  obtain ⟨n, hn, last, hlast, hread⟩ :=
    readAll_take_stream hvs (Nat.le_refl _) (Nat.lt_succ_self (stream vs).length)
  obtain rfl : n = vs.length := Nat.le_antisymm hn.le_length
    (hn.greatest _ (Nat.le_refl _) (by rw [List.take_length]))
  rw [List.take_length] at hread hlast
  rw [List.take_length] at hread
  rw [← hlast.1 rfl]
  exact hread

/-- A stream of two frames, cut within the digits of the second length. -/
theorem events_take_stream_digits :
    (∀ v ∈ [Json.null, .arr [.bool true, .null]], Carried v) ∧
      42 ≤ (stream [.null, .arr [.bool true, .null]]).length ∧
      ∃ n, WholeFrames [.null, .arr [.bool true, .null]] 42 n ∧
        ∃ last, Closes (42 = (stream ([Json.null, .arr [.bool true, .null]].take n)).length) last ∧
          events ((stream [.null, .arr [.bool true, .null]]).take 42) =
            ([Json.null, .arr [.bool true, .null]].take n).map .frame ++ [last] := by
  have hvs : ∀ v ∈ [Json.null, .arr [.bool true, .null]], Carried v := by
    intro v hv
    rcases List.mem_pair.1 hv with rfl | rfl
    · exact ⟨by rfl, by decide⟩
    · exact ⟨by rfl, by decide⟩
  have hk : 42 ≤ (stream [.null, .arr [.bool true, .null]]).length := by decide
  exact ⟨hvs, hk, events_take_stream hvs hk⟩

end LspClient.Frame
