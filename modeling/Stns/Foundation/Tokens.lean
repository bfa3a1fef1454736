import Mathlib.Data.List.DropRight
import Stns.Foundation.Decimal

/-!
# Tokens of a text

A text is cut into tokens at a delimiter, and white space is trimmed from both
ends of a token.
-/

namespace Stns

namespace Tokens

open Decimal

/-!
## Cutting
-/

/-- {lit}`strtok` with one delimiter: the first token and the text behind the
delimiter that ends it; {lit}`none` where the text has no token. -/
def strtok (delimiter : UInt8) (text : Bytes) : Option (Bytes × Bytes) :=
  match text.dropWhile (fun c => c == delimiter) with
  | [] => none
  | c :: rest =>
      some ((c :: rest).takeWhile (fun c => c != delimiter),
        ((c :: rest).dropWhile (fun c => c != delimiter)).tail)

section Cutting

variable {delimiter : UInt8} {token : Bytes}

theorem all_ne_delimiter (hfree : delimiter ∉ token) :
    forall c, c ∈ token -> (c != delimiter) = true := by
  intro c hc
  rw [bne_iff_ne]
  intro heq
  rw [heq] at hc
  exact hfree hc

theorem strtok_cons {c : UInt8} (hc : c ≠ delimiter) (text : Bytes) :
    strtok delimiter (c :: text) =
      some ((c :: text).takeWhile (fun c => c != delimiter),
        ((c :: text).dropWhile (fun c => c != delimiter)).tail) := by
  have hskip : (c :: text).dropWhile (fun c => c == delimiter) = c :: text :=
    List.dropWhile_cons_of_neg (by simpa using hc)
  unfold strtok
  rw [hskip]

theorem strtok_of_free (hne : token ≠ []) (hfree : delimiter ∉ token)
    (rest : Bytes) :
    strtok delimiter (token ++ rest) =
      some (token ++ rest.takeWhile (fun c => c != delimiter),
        (rest.dropWhile (fun c => c != delimiter)).tail) := by
  have hall := all_ne_delimiter hfree
  cases token with
  | nil => exact absurd rfl hne
  | cons c token =>
      have hc := bne_iff_ne.mp (hall c List.mem_cons_self)
      rw [List.cons_append, strtok_cons hc, ← List.cons_append,
        List.takeWhile_append_of_pos hall, List.dropWhile_append_of_pos hall]

theorem strtok_before (hne : token ≠ []) (hfree : delimiter ∉ token)
    (rest : Bytes) :
    strtok delimiter (token ++ delimiter :: rest) = some (token, rest) := by
  rw [strtok_of_free hne hfree, List.takeWhile_cons_of_neg (by simp),
    List.dropWhile_cons_of_neg (by simp), List.append_nil, List.tail_cons]

theorem strtok_whole (hne : token ≠ []) (hfree : delimiter ∉ token) :
    strtok delimiter token = some (token, []) := by
  have h := strtok_of_free hne hfree []
  rw [List.append_nil] at h
  rw [h]
  simp

end Cutting

/-!
## Trimming
-/

/-- Without the white space at both ends. -/
def strip (text : Bytes) : Bytes :=
  (text.rdropWhile isSpace).dropWhile isSpace

theorem dropWhile_isSpace_digits {digits : Bytes}
    (hdigits : forall c, c ∈ digits -> isDigit c = true) :
    digits.dropWhile isSpace = digits := by
  cases digits with
  | nil => rfl
  | cons c rest =>
      have hc := isSpace_of_isDigit (hdigits c List.mem_cons_self)
      exact List.dropWhile_cons_of_neg (by simp [hc])

theorem strip_digits {before digits after : Bytes}
    (hbefore : forall c, c ∈ before -> isSpace c = true)
    (hdigits : forall c, c ∈ digits -> isDigit c = true)
    (hafter : forall c, c ∈ after -> isSpace c = true) (hne : digits ≠ []) :
    strip (before ++ digits ++ after) = digits := by
  have hlast : (before ++ digits).rdropWhile isSpace = before ++ digits := by
    rw [List.rdropWhile_eq_self_iff]
    intro hsome
    rw [List.getLast_append_of_ne_nil _ hne,
      isSpace_of_isDigit (hdigits _ (List.getLast_mem hne))]
    exact Bool.false_ne_true
  have hback : (before ++ digits ++ after).rdropWhile isSpace =
      before ++ digits := by
    unfold List.rdropWhile at hlast ⊢
    rw [List.reverse_append, List.dropWhile_append_of_pos]
    · exact hlast
    · intro c hc
      exact hafter c (List.mem_reverse.mp hc)
  unfold strip
  rw [hback, List.dropWhile_append_of_pos hbefore,
    dropWhile_isSpace_digits hdigits]

end Tokens

end Stns
