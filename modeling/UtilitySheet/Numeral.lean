import UtilitySheet.Text.Basic

/-!
# Numerals with a decimal point

A class name holds a number without a point; the precision says how many of its last places are
decimals. The places are counted in bytes from the end. A digit outside ASCII takes several bytes,
so a point may fall inside a character, and then there is no numeral.
-/

namespace UtilitySheet

/-- Why a point cannot be placed. -/
inductive PointError where
  /-- The places and the digit before them take more than `Numeral.widest` characters. -/
  | tooWide (places : Nat)
  /-- The point would fall inside a character. -/
  | insideCharacter
  deriving DecidableEq, Repr

namespace Numeral

/-- The largest width to which digits are padded. -/
def widest : Nat := 65535

/-- The digits with zeros in front, at least `width` characters. -/
def padded (width : Nat) (digits : Text) : Text :=
  List.replicate (width - digits.length) '0' ++ digits

/-- The reversed text `rev` cut so that its last `n` bytes come in front of `acc`; `none` if the
cut falls inside a character or before the first one. -/
def cutBytes (acc : Text) : Nat → (rev : Text) → Option (Text × Text)
  | 0, rev => some (rev.reverse, acc)
  | _ + 1, [] => none
  | n + 1, c :: rev =>
    if c.utf8Size ≤ n + 1 then cutBytes (c :: acc) (n + 1 - c.utf8Size) rev else none

/-- The sign and the digits of a payload. -/
def splitSign : Text → Text × Text
  | '-' :: digits => (['-'], digits)
  | digits => ([], digits)

/-- The payload with a point before its last `places` places: `5` with one place is `0.5`, `150`
is `15.0`. Without places it stays as it is. -/
def place (payload : Text) (places : Nat) : Except PointError Text :=
  if places = 0 then .ok payload
  else if places + 1 > widest then .error (.tooWide places)
  else
    let (sign, digits) := splitSign payload
    match cutBytes [] places (padded (places + 1) digits).reverse with
    | some (whole, decimals) => .ok (sign ++ whole ++ '.' :: decimals)
    | none => .error .insideCharacter

@[simp]
theorem place_zero (payload : Text) : place payload 0 = .ok payload := rfl

theorem length_padded (width : Nat) (digits : Text) :
    (padded width digits).length = max width digits.length := by
  simp only [padded, List.length_append, List.length_replicate]
  omega

end Numeral

end UtilitySheet
