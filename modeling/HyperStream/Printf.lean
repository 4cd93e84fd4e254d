import Mathlib.Algebra.Group.Nat.Defs
import Mathlib.Data.List.Basic
set_option autoImplicit false

namespace Printf

/-- A piece of a format string: text, or the conversion `%d`. -/
inductive Piece where
  | text (s : String)
  | dec
  deriving DecidableEq, Repr

def decimal (z : Int) : List Char :=
  if z < 0 then '-' :: Nat.toDigits 10 z.natAbs else Nat.toDigits 10 z.natAbs

/-- Conversions without an argument, which C leaves undefined, print nothing. -/
def format : List Piece → List Int → List Char
  | [], _ => []
  | .text s :: ps, zs => s.toList ++ format ps zs
  | .dec :: ps, z :: zs => decimal z ++ format ps zs
  | .dec :: ps, [] => format ps []

/-- The text in the buffer, whose last byte is the terminator. -/
def snprintf (size : Nat) (ps : List Piece) (zs : List Int) : List Char :=
  (format ps zs).take (size - 1)

def arity : List Piece → Nat
  | [] => 0
  | .text _ :: ps => arity ps
  | .dec :: ps => arity ps + 1

def textLength : List Piece → Nat
  | [] => 0
  | .text s :: ps => s.toList.length + textLength ps
  | .dec :: ps => textLength ps

/-- No conversion is followed by what could be taken for its digits. -/
def separated : List Piece → Bool
  | [] => true
  | .text _ :: ps => separated ps
  | .dec :: ps =>
    match ps with
    | [] => true
    | .dec :: _ => false
    | .text s :: rest => (s.toList.head?.any fun c => !c.isDigit) && separated (.text s :: rest)

/-! Reading back. -/

def scanDecimal (cs : List Char) : Int × List Char :=
  let digits := if cs.head? = some '-' then cs.tail else cs
  let n := Nat.ofDigitChars 10 (digits.takeWhile Char.isDigit) 0
  (if cs.head? = some '-' then -n else n,digits.dropWhile Char.isDigit)

def scan : List Piece → List Char → Option (List Int)
  | [], cs => if cs = [] then some [] else none
  | .text s :: ps, cs =>
    if s.toList.isPrefixOf cs then scan ps (cs.drop s.toList.length) else none
  | .dec :: ps, cs => (scan ps (scanDecimal cs).2).map ((scanDecimal cs).1 :: ·)

theorem decimal_length_le {z : Int} {k : Nat} (hk : 0 < k) (h : z.natAbs < 10 ^ k) :
    (decimal z).length ≤ k + 1 := by
  have hdigits : (Nat.toDigits 10 z.natAbs).length ≤ k :=
    (Nat.length_toDigits_le_iff (by omega) hk).mpr h
  unfold decimal
  split
  · rw [List.length_cons]; omega
  · omega

theorem format_length_le {k : Nat} (hk : 0 < k) (ps : List Piece) (zs : List Int)
    (h : ∀ z ∈ zs, z.natAbs < 10 ^ k) :
    (format ps zs).length ≤ textLength ps + (k + 1) * arity ps := by
  induction ps generalizing zs with
  | nil => simp [format]
  | cons p ps ih =>
    cases p with
    | text s =>
      have hrest := ih zs h
      simp only [format,textLength,arity,List.length_append]
      omega
    | dec =>
      cases zs with
      | nil =>
        have hrest := ih [] h
        simp only [format,textLength,arity,Nat.mul_succ]
        omega
      | cons z zs =>
        have hrest := ih zs fun y hy => h y (List.mem_cons_of_mem _ hy)
        have hz := decimal_length_le hk (h z List.mem_cons_self)
        simp only [format,textLength,arity,Nat.mul_succ,List.length_append]
        omega

theorem snprintf_of_length_lt {size : Nat} {ps : List Piece} {zs : List Int}
    (h : (format ps zs).length < size) : snprintf size ps zs = format ps zs :=
  List.take_of_length_le (by omega)

theorem decimal_digits {n : Nat} {c : Char} (h : c ∈ Nat.toDigits 10 n) : c.isDigit = true :=
  Nat.isDigit_of_mem_toDigits (by decide) (by decide) h

theorem takeWhile_digits (n : Nat) {rest : List Char}
    (h : ∀ c, rest.head? = some c → c.isDigit = false) :
    (Nat.toDigits 10 n ++ rest).takeWhile Char.isDigit = Nat.toDigits 10 n ∧
      (Nat.toDigits 10 n ++ rest).dropWhile Char.isDigit = rest := by
  have hdigits : ∀ c ∈ Nat.toDigits 10 n, c.isDigit = true := fun c hc => decimal_digits hc
  rw [List.takeWhile_append_of_pos hdigits,List.dropWhile_append_of_pos hdigits]
  cases rest with
  | nil => simp
  | cons c cs => simp [h c rfl]

theorem head?_digits (n : Nat) (rest : List Char) :
    (Nat.toDigits 10 n ++ rest).head? ≠ some '-' := by
  cases hd : Nat.toDigits 10 n with
  | nil => exact absurd hd Nat.toDigits_ne_nil
  | cons c cs =>
    intro hc
    have hdigit : c.isDigit = true := decimal_digits (by rw [hd]; exact List.mem_cons_self)
    simp only [List.cons_append,List.head?_cons,Option.some.injEq] at hc
    rw [hc] at hdigit
    exact absurd hdigit (by decide)

theorem scanDecimal_decimal (z : Int) {rest : List Char}
    (h : ∀ c, rest.head? = some c → c.isDigit = false) :
    scanDecimal (decimal z ++ rest) = (z,rest) := by
  obtain ⟨htake,hdrop⟩ := takeWhile_digits z.natAbs h
  by_cases hz : z < 0
  · have hneg : -(z.natAbs : Int) = z := by omega
    have hdecimal : decimal z = '-' :: Nat.toDigits 10 z.natAbs := if_pos hz
    simp only [scanDecimal,hdecimal,List.cons_append,List.head?_cons,if_true,List.tail_cons,
      htake,hdrop,Nat.ofDigitChars_ten_toDigits,hneg]
  · have hpos : (z.natAbs : Int) = z := by omega
    have hhead := head?_digits z.natAbs rest
    have hdecimal : decimal z = Nat.toDigits 10 z.natAbs := if_neg hz
    simp only [scanDecimal,hdecimal,if_neg hhead,htake,hdrop,Nat.ofDigitChars_ten_toDigits,hpos]

/-- What is printed can be read back, whatever the arguments are. -/
theorem scan_format {ps : List Piece} (hps : separated ps = true) {zs : List Int}
    (hzs : zs.length = arity ps) : scan ps (format ps zs) = some zs := by
  induction ps generalizing zs with
  | nil =>
    have hnil : zs = [] := List.length_eq_zero_iff.mp hzs
    simp [scan,format,hnil]
  | cons p ps ih =>
    cases p with
    | text s =>
      simp only [scan,format,List.isPrefixOf_iff_prefix,List.prefix_append,if_true,List.drop_left]
      exact ih hps hzs
    | dec =>
      cases zs with
      | nil => cases hzs
      | cons z zs =>
        have hlen : zs.length = arity ps := Nat.succ.inj hzs
        have hnext : separated ps = true ∧
            ∀ c, (format ps zs).head? = some c → c.isDigit = false := by
          cases ps with
          | nil => exact ⟨rfl,fun c hc => by simp [format] at hc⟩
          | cons q rest =>
            cases q with
            | dec => cases hps
            | text s =>
              simp only [separated,Bool.and_eq_true] at hps
              refine ⟨hps.2,fun c hc => ?_⟩
              cases hs : s.toList with
              | nil => simp [hs] at hps
              | cons d ds =>
                simp only [format,hs,List.cons_append,List.head?_cons,Option.some.injEq] at hc
                simpa [hs,hc] using hps.1
        simp only [scan,format,scanDecimal_decimal z hnext.2,ih hnext.1 hlen,Option.map_some]

end Printf
