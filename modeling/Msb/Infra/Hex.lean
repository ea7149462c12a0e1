import Msb.Infra.Json

/-!
# Bytes in hexadecimal

`bytes.hex` and `bytes.fromhex`.

* `fromHex_hex` — what was written in hexadecimal reads back
-/

namespace Py

/-- `b.hex()` -/
def hex (b : Bytes) : Str := b.flatMap fun x => [hexChar (x.toNat / 16), hexChar (x.toNat % 16)]

/-- ASCII whitespace, as `bytes.fromhex` skips it. -/
def isAsciiSpace (c : CodePoint) : Bool := c == 32 || (9 ≤ c.val && c.val ≤ 13)

/-- `bytes.fromhex(s)`. `none` is `ValueError`. -/
def fromHex : Str → Option Bytes
  | [] => some []
  | [c] => if isAsciiSpace c then some [] else none
  | c :: d :: rest =>
    if isAsciiSpace c then fromHex (d :: rest)
    else
      match hexDigit? c, hexDigit? d, fromHex rest with
      | some x, some y, some b => some (UInt8.ofNat (16 * x + y) :: b)
      | _, _, _ => none

theorem hexChar_not_space {d : Nat} (h : d < 16) : isAsciiSpace (hexChar d) = false := by
  interval_cases d <;> rfl

/-- **What was written in hexadecimal reads back.** -/
theorem fromHex_hex (b : Bytes) : fromHex (hex b) = some b := by
  induction b with
  | nil => rfl
  | cons x b ih =>
    have hx : x.toNat < 256 := x.toNat_lt
    have hhi : x.toNat / 16 < 16 := by omega
    have hlo : x.toNat % 16 < 16 := by omega
    have hcons : hex (x :: b) = hexChar (x.toNat / 16) :: hexChar (x.toNat % 16) :: hex b := rfl
    have hval : 16 * (x.toNat / 16) + x.toNat % 16 = x.toNat := by omega
    rw [hcons, fromHex, hexChar_not_space hhi, hexDigit?_hexChar hhi, hexDigit?_hexChar hlo, ih]
    simp [hval]

/-- Hexadecimal text is ASCII. -/
theorem scalar?_hex (b : Bytes) : ∀ c ∈ hex b, (scalar? c).isSome = true := by
  intro c hc
  obtain ⟨x, -, hx⟩ := List.mem_flatMap.mp hc
  have hdigit : ∀ d, d < 16 → (scalar? (hexChar d)).isSome = true := by
    intro d hd
    interval_cases d <;> rfl
  have hlt : x.toNat < 256 := x.toNat_lt
  simp only [List.mem_cons, List.not_mem_nil, or_false] at hx
  rcases hx with rfl | rfl
  · exact hdigit _ (by omega)
  · exact hdigit _ (by omega)

theorem hex_injective {a b : Bytes} (h : hex a = hex b) : a = b := by
  have hab : fromHex (hex a) = fromHex (hex b) := by rw [h]
  simpa only [fromHex_hex, Option.some.injEq] using hab

end Py
