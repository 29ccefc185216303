import NasMount.Foundation.Text

/-!
# Percent escapes

A text in which an escape `%XY` stands for the ASCII character with that code.
Reading the escapes once gives back whatever was spelled character by character.
-/
namespace NasMount.Foundation.PercentEscape

variable {c : Char} {d : ℕ} {s rest : QString}

/-- The value of a hexadecimal digit. -/
def hexValue? (c : Char) : Option ℕ :=
  if '0' ≤ c && c ≤ '9' then some (c.toNat - 48)
  else if 'A' ≤ c && c ≤ 'F' then some (c.toNat - 55)
  else if 'a' ≤ c && c ≤ 'f' then some (c.toNat - 87)
  else none

def hexDigit (d : ℕ) : Char := if d < 10 then Char.ofNat (48 + d) else Char.ofNat (55 + d)

theorem hexValue?_hexDigit (h : d < 16) : hexValue? (hexDigit d) = some d := by
  interval_cases d <;> decide

/-- The text with its escapes read once; `none` where an escape is malformed or does
not stand for an ASCII character. -/
def decode : QString → Option QString
  | [] => some []
  | c :: rest =>
    if c = '%' then
      match rest with
      | a :: b :: rest =>
        match hexValue? a, hexValue? b with
        | some high, some low =>
          if 16 * high + low < 128 then (decode rest).map (Char.ofNat (16 * high + low) :: ·)
          else none
        | _, _ => none
      | _ => none
    else (decode rest).map (c :: ·)

/-- The escape of a character. -/
def escaped (c : Char) : QString := ['%', hexDigit (c.toNat / 16), hexDigit (c.toNat % 16)]

theorem decode_cons (h : c ≠ '%') : decode (c :: rest) = (decode rest).map (c :: ·) := by
  rw [decode.eq_def (c :: rest)]
  exact if_neg h

theorem decode_escaped (h : c.toNat < 128) :
    decode (escaped c ++ rest) = (decode rest).map (c :: ·) := by
  have hhigh : hexValue? (hexDigit (c.toNat / 16)) = some (c.toNat / 16) :=
    hexValue?_hexDigit (by omega)
  have hlow : hexValue? (hexDigit (c.toNat % 16)) = some (c.toNat % 16) :=
    hexValue?_hexDigit (by omega)
  have hcode : 16 * (c.toNat / 16) + c.toNat % 16 = c.toNat := Nat.div_add_mod _ _
  rw [escaped, List.cons_append, List.cons_append, List.cons_append, List.nil_append, decode,
    if_pos rfl, hhigh, hlow]
  dsimp only
  rw [hcode, if_pos h, Char.ofNat_toNat]

/-- A spelling of single characters that reads back one by one reads back as a
whole. -/
theorem decode_flatMap {spell : Char → QString}
    (hspell : ∀ c rest, decode (spell c ++ rest) = (decode rest).map (c :: ·)) (s : QString) :
    decode (s.flatMap spell) = some s := by
  induction s with
  | nil => rfl
  | cons c s ih => rw [List.flatMap_cons, hspell, ih, Option.map_some]

end NasMount.Foundation.PercentEscape
