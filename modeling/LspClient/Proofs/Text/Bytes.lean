import LspClient.Text.Utf8
import Mathlib.Data.List.Basic
import Mathlib.Tactic.IntervalCases

/-!
# The bytes of characters

`bytesOf` is what a list of characters is encoded to. It is decoded again (`decodeChars_bytesOf`),
and whatever follows, what was decoded stays in front (`decodeFrom_ok`). A line feed is no part of
another character (`newline_not_mem_bytesOf`).
-/

namespace LspClient

/-- The bytes of a list of characters. -/
def bytesOf (cs : List Char) : List UInt8 := cs.flatMap String.utf8EncodeChar

theorem encode_eq_bytesOf (s : String) : Utf8.encode s = bytesOf s.toList := rfl

theorem length_encode (s : String) : (Utf8.encode s).length = s.utf8ByteSize := by
  rw [← String.size_toByteArray, ← String.utf8Encode_toList]
  simp [List.utf8Encode, Utf8.encode]

@[simp] theorem bytesOf_nil : bytesOf [] = [] := rfl

theorem bytesOf_cons (c : Char) (cs : List Char) :
    bytesOf (c :: cs) = String.utf8EncodeChar c ++ bytesOf cs := by
  simp [bytesOf]

@[simp] theorem bytesOf_append (a b : List Char) : bytesOf (a ++ b) = bytesOf a ++ bytesOf b := by
  simp [bytesOf]

theorem newline_mem_utf8EncodeChar {c : Char} (h : 10 ∈ String.utf8EncodeChar c) : c = '\n' := by
  have hbyte : ∀ {n : Nat}, 10 = UInt8.ofNat n → n % 256 = 10 := fun h => by
    simpa using (congrArg UInt8.toNat h).symm
  rw [String.utf8EncodeChar] at h
  split_ifs at h with hone htwo hthree <;>
    simp only [List.mem_cons, List.not_mem_nil, or_false] at h
  · refine Char.ext (UInt32.toNat_inj.1 ?_)
    have := hbyte h
    show c.val.toNat = 10
    omega
  · rcases h with h | h
    all_goals
      have hmod := hbyte h
      omega
  · rcases h with h | h | h
    all_goals
      have hmod := hbyte h
      omega
  · rcases h with h | h | h | h
    all_goals
      have hmod := hbyte h
      omega

theorem newline_not_mem_bytesOf {cs : List Char} (h : '\n' ∉ cs) : 10 ∉ bytesOf cs := by
  intro hmem
  obtain ⟨c, hc, hbyte⟩ := List.mem_flatMap.1 hmem
  exact h (newline_mem_utf8EncodeChar hbyte ▸ hc)

namespace Utf8

/-! ### Characters of several bytes -/

/-- A byte in the right range owes one less. -/
theorem Begun.push_tail {p : Begun} {t : Nat} (ht : t < 64) (hlow : p.low.toNat ≤ t + 128)
    (hhigh : t + 128 ≤ p.high.toNat) :
    p.push (UInt8.ofNat (t + 128)) =
      if p.owed ≤ 1 then .whole (Char.ofNat (p.value * 64 + t))
      else .begun ⟨p.value * 64 + t, p.owed - 1, 0x80, 0xBF, p.width + 1⟩ := by
  have hbyte : (UInt8.ofNat (t + 128)).toNat = t + 128 := by
    rw [UInt8.toNat_ofNat']
    omega
  have hrange : p.low ≤ UInt8.ofNat (t + 128) ∧ UInt8.ofNat (t + 128) ≤ p.high := by
    rw [UInt8.le_iff_toNat_le, UInt8.le_iff_toNat_le, hbyte]
    exact ⟨hlow, hhigh⟩
  simp only [Begun.push, hrange, and_self, ↓reduceIte, hbyte, Nat.add_sub_cancel]

theorem lead_two {k : Nat} (hlow : 2 ≤ k) (hk : k < 32) :
    lead (UInt8.ofNat (k + 192)) = .begun ⟨k, 1, 0x80, 0xBF, 1⟩ := by
  interval_cases k <;> rfl

theorem lead_three {k : Nat} (hk : k < 16) :
    ∃ low high : UInt8, lead (UInt8.ofNat (k + 224)) = .begun ⟨k, 2, low, high, 1⟩ ∧
      low.toNat = (if k = 0 then 160 else 128) ∧ high.toNat = (if k = 13 then 159 else 191) := by
  interval_cases k <;> exact ⟨_, _, rfl, rfl, rfl⟩

theorem lead_four {k : Nat} (hk : k < 5) :
    ∃ low high : UInt8, lead (UInt8.ofNat (k + 240)) = .begun ⟨k, 3, low, high, 1⟩ ∧
      low.toNat = (if k = 0 then 144 else 128) ∧ high.toNat = (if k = 4 then 143 else 191) := by
  interval_cases k <;> exact ⟨_, _, rfl, rfl, rfl⟩

variable {acc : List Char} {index : Nat} {rest : List UInt8}

/-- The last byte of a character. -/
theorem decodeFrom_last {p : Begun} {t : Nat} (howed : p.owed = 1) (ht : t < 64)
    (hlow : p.low.toNat ≤ t + 128) (hhigh : t + 128 ≤ p.high.toNat) :
    decodeFrom acc index (some p) (UInt8.ofNat (t + 128) :: rest) =
      decodeFrom (Char.ofNat (p.value * 64 + t) :: acc) (index + 1) none rest := by
  rw [decodeFrom, Begun.push_tail ht hlow hhigh, if_pos (Nat.le_of_eq howed)]

/-- A byte in the middle of a character. -/
theorem decodeFrom_middle {p : Begun} {t : Nat} (howed : 1 < p.owed) (ht : t < 64)
    (hlow : p.low.toNat ≤ t + 128) (hhigh : t + 128 ≤ p.high.toNat) :
    decodeFrom acc index (some p) (UInt8.ofNat (t + 128) :: rest) =
      decodeFrom acc (index + 1)
        (some ⟨p.value * 64 + t, p.owed - 1, 0x80, 0xBF, p.width + 1⟩) rest := by
  rw [decodeFrom, Begun.push_tail ht hlow hhigh, if_neg (Nat.not_le.2 howed)]

/-- What `String.utf8EncodeChar` makes of a character is read back as that character. -/
theorem decodeFrom_utf8EncodeChar (c : Char) :
    decodeFrom acc index none (String.utf8EncodeChar c ++ rest) =
      decodeFrom (c :: acc) (index + (String.utf8EncodeChar c).length) none rest := by
  have hvalid : c.val.toNat < 0xD800 ∨ 0xDFFF < c.val.toNat ∧ c.val.toNat < 0x110000 := c.valid
  have hc : Char.ofNat c.val.toNat = c := Char.ofNat_toNat c
  rw [String.utf8EncodeChar]
  generalize c.val.toNat = v at *
  -- by the number of bytes, the cases in which the character is encoded
  split_ifs with hone htwo hthree
  · have hlead : lead (UInt8.ofNat v) = .whole c := by
      have hbyte : (UInt8.ofNat v).toNat = v := by rw [UInt8.toNat_ofNat']; omega
      have hlt : UInt8.ofNat v < 0x80 := by
        rw [UInt8.lt_iff_toNat_lt, hbyte]
        exact Nat.lt_succ_of_le hone
      rw [lead, if_pos hlt, hbyte, hc]
    rw [List.singleton_append, decodeFrom, hlead]
    rfl
  · have hvalue : v / 64 % 32 * 64 + v % 64 = v := by omega
    simp only [List.cons_append, List.nil_append]
    rw [decodeFrom, lead_two (by omega) (by omega)]
    simp only
    rw [decodeFrom_last rfl (by omega) (by simp) (by simp; omega), hvalue, hc]
    rfl
  · have hvalue : (v / 4096 % 16 * 64 + v / 64 % 64) * 64 + v % 64 = v := by omega
    obtain ⟨low, high, hlead, hlow, hhigh⟩ := lead_three (k := v / 4096 % 16) (by omega)
    simp only [List.cons_append, List.nil_append]
    rw [decodeFrom, hlead]
    simp only
    rw [decodeFrom_middle (by simp) (by omega) (by simp only [hlow]; split_ifs <;> omega)
      (by simp only [hhigh]; split_ifs <;> omega)]
    rw [decodeFrom_last rfl (by omega) (by simp) (by simp; omega), hvalue, hc]
    rfl
  · have hvalue : ((v / 262144 % 8 * 64 + v / 4096 % 64) * 64 + v / 64 % 64) * 64 + v % 64 = v := by
      omega
    obtain ⟨low, high, hlead, hlow, hhigh⟩ := lead_four (k := v / 262144 % 8) (by omega)
    simp only [List.cons_append, List.nil_append]
    rw [decodeFrom, hlead]
    simp only
    rw [decodeFrom_middle (by simp) (by omega) (by simp only [hlow]; split_ifs <;> omega)
      (by simp only [hhigh]; split_ifs <;> omega)]
    rw [decodeFrom_middle (by simp) (by omega) (by simp) (by simp; omega)]
    rw [decodeFrom_last rfl (by omega) (by simp) (by simp; omega), hvalue, hc]
    rfl

/-- The bytes of a text are read back as that text. -/
theorem decodeFrom_bytesOf (cs : List Char) :
    decodeFrom acc index none (bytesOf cs ++ rest) =
      decodeFrom (cs.reverse ++ acc) (index + (bytesOf cs).length) none rest := by
  induction cs generalizing acc index with
  | nil => rfl
  | cons c cs ih =>
    rw [bytesOf_cons, List.append_assoc, decodeFrom_utf8EncodeChar, ih, List.length_append,
      Nat.add_assoc, List.reverse_cons, List.append_assoc, List.singleton_append]

theorem decodeChars_bytesOf (cs : List Char) : decodeChars (bytesOf cs) = .ok cs := by
  have h : decodeFrom [] 0 none (bytesOf cs ++ []) =
      decodeFrom (cs.reverse ++ []) (0 + (bytesOf cs).length) none [] := decodeFrom_bytesOf cs
  rw [List.append_nil, List.append_nil] at h
  rw [decodeChars, h, decodeFrom, List.reverse_reverse]

/-- What was decoded stays in front of the result. -/
theorem decodeFrom_ok {acc cs : List Char} {index : Nat} {begun : Option Begun}
    {bytes : List UInt8} (h : decodeFrom acc index begun bytes = .ok cs) :
    ∃ more, cs = acc.reverse ++ more := by
  induction bytes generalizing acc index begun with
  | nil =>
    cases begun with
    | none => exact ⟨[], by simpa [decodeFrom] using h.symm⟩
    | some p => simp [decodeFrom] at h
  | cons b rest ih =>
    have grow : ∀ {c : Char} {index : Nat}, decodeFrom (c :: acc) index none rest = .ok cs →
        ∃ more, cs = acc.reverse ++ more := fun {c _} h => by
      obtain ⟨more, hmore⟩ := ih h
      exact ⟨c :: more, by simpa using hmore⟩
    cases begun with
    | none =>
      simp only [decodeFrom] at h
      cases hlead : lead b with
      | whole c => rw [hlead] at h; exact grow h
      | begun p => rw [hlead] at h; exact ih h
      | unfit => rw [hlead] at h; cases h
    | some p =>
      simp only [decodeFrom] at h
      cases hpush : p.push b with
      | whole c => rw [hpush] at h; exact grow h
      | begun q => rw [hpush] at h; exact ih h
      | unfit => rw [hpush] at h; cases h

end Utf8

end LspClient
