import Mathlib.Data.Nat.Basic

/-!
# Base64

The encoding writes three bytes as four symbols, and pads the last group to four.  Whole groups are
exactly the texts of symbols whose length is a multiple of four (`exists_encode`,
`symbols_encode`); a last group of one or two bytes leaves unused bits in its last symbol, which
are zero (`exists_encode_one`, `exists_encode_two`).
-/

namespace Base64

/-- The byte that fills the last group. -/
def pad : UInt8 := 0x3d

/-- The standard alphabet. -/
def symbol (n : Nat) : UInt8 :=
  if n < 26 then UInt8.ofNat (0x41 + n)
  else if n < 52 then UInt8.ofNat (0x61 + (n - 26))
  else if n < 62 then UInt8.ofNat (0x30 + (n - 52))
  else if n = 62 then 0x2b
  else 0x2f

/-- The encoding with padding. -/
def encode : List UInt8 → List UInt8
  | [] => []
  | [a] => [symbol (a.toNat / 4), symbol (a.toNat % 4 * 16), pad, pad]
  | [a, b] =>
    [symbol (a.toNat / 4), symbol (a.toNat % 4 * 16 + b.toNat / 16), symbol (b.toNat % 16 * 4), pad]
  | a :: b :: c :: rest =>
    symbol (a.toNat / 4) :: symbol (a.toNat % 4 * 16 + b.toNat / 16) ::
      symbol (b.toNat % 16 * 4 + c.toNat / 64) :: symbol (c.toNat % 64) :: encode rest

/-- The characters of the alphabet. -/
def IsSymbol (c : UInt8) : Prop := ∃ n < 64, symbol n = c

/-- The characters whose bits below `k` are zero. -/
def IsFinal (k : Nat) (c : UInt8) : Prop := ∃ n < 64, symbol n = c ∧ n % k = 0

/-- The texts without padding. -/
def Symbols (text : List UInt8) : Prop := ∀ c ∈ text, IsSymbol c

variable {data tail text : List UInt8} {c x y z : UInt8}

theorem IsFinal.isSymbol {k : Nat} (h : IsFinal k c) : IsSymbol c := by
  obtain ⟨n, hn, hsymbol, -⟩ := h
  exact ⟨n, hn, hsymbol⟩

theorem symbols_nil : Symbols [] := List.forall_mem_nil _

theorem symbols_cons : Symbols (c :: text) ↔ IsSymbol c ∧ Symbols text := List.forall_mem_cons

theorem symbols_append : Symbols (text ++ tail) ↔ Symbols text ∧ Symbols tail :=
  List.forall_mem_append

theorem not_isSymbol_pad : ¬ IsSymbol pad := by
  intro h
  obtain ⟨n, hn, hpad⟩ := h
  have hall : ∀ n < 64, symbol n ≠ pad := by decide
  exact hall n hn hpad

theorem encode_append (h : 3 ∣ data.length) : encode (data ++ tail) = encode data ++ encode tail := by
  induction data using encode.induct with
  | case1 => rfl
  | case2 => cases Nat.eq_one_of_dvd_one h
  | case3 => simp at h
  | case4 a b c rest ih =>
    have hrest : 3 ∣ rest.length := by
      simp only [List.length_cons] at h
      omega
    simp only [List.cons_append, encode, ih hrest]

/-- Whole groups are symbols, four for every three bytes. -/
theorem symbols_encode (h : 3 ∣ data.length) :
    Symbols (encode data) ∧ 3 * (encode data).length = 4 * data.length := by
  induction data using encode.induct with
  | case1 => exact ⟨symbols_nil, rfl⟩
  | case2 => cases Nat.eq_one_of_dvd_one h
  | case3 => simp at h
  | case4 a b c rest ih =>
    have hrest : 3 ∣ rest.length := by
      simp only [List.length_cons] at h
      omega
    have ha := a.toNat_lt
    have hb := b.toNat_lt
    obtain ⟨hsymbols, hlength⟩ := ih hrest
    simp only [encode, symbols_cons, List.length_cons]
    refine ⟨⟨⟨_, by omega, rfl⟩, ⟨_, by omega, rfl⟩, ⟨_, ?_, rfl⟩, ⟨_, by omega, rfl⟩, hsymbols⟩,
      by omega⟩
    have hc := c.toNat_lt
    omega

theorem toNat_ofNat {n : Nat} (h : n < 256) : (UInt8.ofNat n).toNat = n := Nat.mod_eq_of_lt h

/-- Two symbols, the second with four unused bits, are the encoding of a byte. -/
theorem exists_encode_one (hx : IsSymbol x) (hy : IsFinal 16 y) :
    ∃ a, encode [a] = [x, y, pad, pad] := by
  obtain ⟨x, hx, rfl⟩ := hx
  obtain ⟨y, hy, rfl, hzero⟩ := hy
  refine ⟨UInt8.ofNat (x * 4 + y / 16), ?_⟩
  rw [encode, toNat_ofNat (by omega)]
  congr 3 <;> omega

/-- Three symbols, the third with two unused bits, are the encoding of two bytes. -/
theorem exists_encode_two (hx : IsSymbol x) (hy : IsSymbol y) (hz : IsFinal 4 z) :
    ∃ a b, encode [a, b] = [x, y, z, pad] := by
  obtain ⟨x, hx, rfl⟩ := hx
  obtain ⟨y, hy, rfl⟩ := hy
  obtain ⟨z, hz, rfl, hzero⟩ := hz
  refine ⟨UInt8.ofNat (x * 4 + y / 16), UInt8.ofNat (y % 16 * 16 + z / 4), ?_⟩
  rw [encode, toNat_ofNat (by omega), toNat_ofNat (by omega)]
  congr 3 <;> (try congr 1) <;> omega

/-- Symbols in groups of four are the encoding of whole groups of bytes. -/
theorem exists_encode :
    ∀ {text : List UInt8}, Symbols text → 4 ∣ text.length →
      ∃ data, 3 ∣ data.length ∧ encode data = text
  | [], _, _ => ⟨[], by simp, rfl⟩
  | [_], _, hlength | [_, _], _, hlength | [_, _, _], _, hlength => by simp at hlength
  | _ :: _ :: _ :: _ :: text, h, hlength => by
    simp only [symbols_cons] at h
    obtain ⟨⟨x, hx, rfl⟩, ⟨y, hy, rfl⟩, ⟨z, hz, rfl⟩, ⟨w, hw, rfl⟩, htext⟩ := h
    obtain ⟨data, hdata, htext⟩ := exists_encode htext (by simpa using hlength)
    refine ⟨UInt8.ofNat (x * 4 + y / 16) :: UInt8.ofNat (y % 16 * 16 + z / 4) ::
      UInt8.ofNat (z % 4 * 64 + w) :: data, by simpa using hdata, ?_⟩
    rw [encode, toNat_ofNat (by omega), toNat_ofNat (by omega), toNat_ofNat (by omega), htext]
    congr 1
    · congr 1; omega
    congr 1
    · congr 1; omega
    congr 1
    · congr 1; omega
    · congr 2; omega

end Base64
