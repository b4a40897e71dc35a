import Mathlib.Data.Nat.Digits
import Mathlib.Data.UInt

/-!
# Go values shared by the modelled packages

A Go string or byte slice is `Bytes`, and a Go string literal is its UTF-8 encoding. Errors
keep their format strings and operands unformatted, with the constructors the modelled
packages build them with. `Except` gets decidable equality so that results compare by `decide`.
`itoa` and `formatInt` are `strconv.Itoa` and `%d`, through Lean's `toString`; the numerals
they write are the digits of `Nat.digits` (`itoa_eq_decimal`).
-/

namespace GoMongo

abbrev Bytes := List UInt8

def goBytes (s : String) : Bytes := s.data.flatMap String.utf8EncodeChar

structure Fmt where
  format : String
  operands : List String
  deriving DecidableEq, Repr

/-- `fmt.Errorf` (and `errors.New`), `fmt.Errorf` wrapping one error with `%w`, and package
auth's `newAuthError` without and with an inner error. -/
inductive Error
  | errorf (msg : Fmt)
  | wrapf (format : String) (inner : Error)
  | authError (msg : Fmt)
  | authErrorOf (msg : Fmt) (inner : Error)
  deriving DecidableEq, Repr

instance exceptDecidableEq {ε α : Type} [DecidableEq ε] [DecidableEq α] :
    DecidableEq (Except ε α)
  | .error a, .error b => decidable_of_iff (a = b) (by simp)
  | .ok a, .ok b => decidable_of_iff (a = b) (by simp)
  | .error _, .ok _ => isFalse (by simp)
  | .ok _, .error _ => isFalse (by simp)

theorem except_map_eq_ok {ε α β : Type} {f : α → β} {x : Except ε α} {b : β}
    (h : x.map f = .ok b) : ∃ a, x = .ok a ∧ f a = b := by
  cases x with
  | error e => cases h
  | ok a => exact ⟨a, rfl, Except.ok.inj h⟩

def itoa (n : Nat) : Bytes := goBytes (toString n)

def formatInt (i : Int) : Bytes := goBytes (toString i)

/-- A numeral's ASCII digits, most significant first, as the decimal system writes them. -/
def decimal (n : Nat) : Bytes :=
  if n = 0 then [0x30] else (Nat.digits 10 n).reverse.map fun d => 0x30 + UInt8.ofNat d

def decimalInt (i : Int) : Bytes :=
  if i < 0 then 0x2d :: decimal i.natAbs else decimal i.natAbs

theorem toDigitsCore_eq_digits {fuel n : Nat} (ds : List Char) (hn : 0 < n) (hfuel : n < fuel) :
    Nat.toDigitsCore 10 fuel n ds = (Nat.digits 10 n).reverse.map Nat.digitChar ++ ds := by
  induction fuel generalizing n ds with
  | zero => omega
  | succ fuel ih =>
    change (if n / 10 = 0 then Nat.digitChar (n % 10) :: ds
      else Nat.toDigitsCore 10 fuel (n / 10) (Nat.digitChar (n % 10) :: ds)) = _
    rw [Nat.digits_def' (by norm_num) hn]
    split_ifs with h
    · simp [h]
    · rw [ih _ (by omega) (by omega)]
      simp

theorem itoa_eq_decimal (n : Nat) : itoa n = decimal n := by
  have hdigit : ∀ d < 10, String.utf8EncodeChar (Nat.digitChar d) = [0x30 + UInt8.ofNat d] := by
    decide
  unfold decimal
  split_ifs with h
  · subst h; rfl
  · change (Nat.toDigitsCore 10 (n + 1) n []).flatMap String.utf8EncodeChar = _
    rw [toDigitsCore_eq_digits [] (Nat.pos_of_ne_zero h) (by omega), List.append_nil,
      List.flatMap_map, List.map_eq_flatMap]
    exact List.flatMap_congr fun d hd =>
      hdigit d (Nat.digits_lt_base (by norm_num) (List.mem_reverse.1 hd))

theorem formatInt_eq_decimalInt (i : Int) : formatInt i = decimalInt i := by
  cases i with
  | ofNat m => exact itoa_eq_decimal m
  | negSucc m =>
    change goBytes "-" ++ itoa (m + 1) = _
    rw [itoa_eq_decimal, decimalInt, if_pos (Int.negSucc_lt_zero m)]
    rfl

theorem uint8_ofNat_toNat (c : UInt8) : UInt8.ofNat c.toNat = c :=
  UInt8.toNat.inj (UInt8.toNat_ofNat_of_lt c.toNat_lt_size)

end GoMongo
