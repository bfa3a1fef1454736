import Stns.Document.JsonParse
import Stns.Document.JsonStringText

/-!
# The grammar that the parser takes

An array or an object at the front of a text is read exactly where there is the
text of one, and as the value that this text stands for.  The two loops share
one argument, which is about the texts of the items only.
-/

namespace Stns

namespace Parson

open Decimal FloatText

/-!
## White space
-/

section Spaces

variable {w s rest : Bytes}

/-- The text does not go on with white space. -/
def Started (s : Bytes) : Prop :=
  forall c, s.head? = some c -> isSpace c = false

theorem Started.cons {c : UInt8} (h : isSpace c = false) (s : Bytes) :
    Started (c :: s) := by
  intro c' hc'
  cases hc'
  exact h

theorem skipWhitespaces_started (h : Started s) : skipWhitespaces s = s := by
  cases s with
  | nil => rfl
  | cons c s => simp [skipWhitespaces, h c rfl]

theorem skipWhitespaces_blank (hw : Blank w) (h : Started s) :
    skipWhitespaces (w ++ s) = s := by
  unfold skipWhitespaces
  rw [List.dropWhile_append_of_pos hw]
  exact skipWhitespaces_started h

theorem started_skipWhitespaces (s : Bytes) :
    Started (skipWhitespaces s) := by
  intro c hc
  have hnot := List.head?_dropWhile_not isSpace s
  unfold skipWhitespaces at hc
  rw [hc] at hnot
  exact hnot

theorem skipWhitespaces_split (s : Bytes) :
    exists w, Blank w ∧ s = w ++ skipWhitespaces s :=
  ⟨s.takeWhile isSpace, fun _ hc => List.mem_takeWhile_imp hc,
    List.takeWhile_append_dropWhile.symm⟩

theorem Blank.nil : Blank [] :=
  nofun

theorem ends_of_isSpace {c : UInt8} (h : isSpace c = true) :
    isDigit c = false ∧ c ≠ point ∧ c ≠ 101 ∧ c ≠ 69 ∧ c ≠ 120 ∧ c ≠ 88 := by
  constructor
  · cases hdigit : isDigit c with
    | false => rfl
    | true =>
        rw [isSpace_of_isDigit hdigit] at h
        cases h
  · refine ⟨?_, ?_, ?_, ?_, ?_⟩ <;>
    · intro heq
      rw [heq] at h
      exact absurd h (by decide)

/-- White space and what ends a number end a number. -/
theorem ends_blank (hw : Blank w) (h : Ends rest) : Ends (w ++ rest) := by
  cases w with
  | nil => exact h
  | cons c w =>
      intro c' hc'
      cases hc'
      exact ends_of_isSpace (hw c List.mem_cons_self)

theorem Ends.cons {c : UInt8}
    (h : isDigit c = false ∧ c ≠ point ∧ c ≠ 101 ∧ c ≠ 69 ∧ c ≠ 120 ∧ c ≠ 88)
    (rest : Bytes) : Ends (c :: rest) := by
  intro c' hc'
  cases hc'
  exact h

end Spaces

/-!
## Numbers
-/

section Numbers

variable {d : DecimalText} {s rest : Bytes} {v : Json}

/-- No zero in front of more digits, and none in front of an exponent. -/
def Plain (magnitude : Bytes) : Prop :=
  ¬ (1 < magnitude.length ∧ magnitude[0]? = some 48 ∧
    magnitude[1]? ≠ some point)

theorem plain_cons {c : UInt8} {tail : Bytes} :
    Plain (c :: tail) <->
      (c = 48 -> forall c', tail.head? = some c' -> c' = point) := by
  unfold Plain
  cases tail with
  | nil => simp
  | cons c' tail => simp

theorem plain_magnitudeText (h : d.WellFormed) :
    Plain d.magnitudeText <->
      forall tail, d.whole = 48 :: tail ->
        tail = [] ∧ (d.fraction = none -> d.exponent = none) := by
  unfold DecimalText.magnitudeText
  have hdigits := h.whole
  cases hwhole : d.whole with
  | nil =>
      constructor
      · intro _ tail htail
        cases htail
      · intro _
        cases hfraction : d.fraction with
        | some digits =>
            exact plain_cons.mpr (fun hzero => absurd hzero (by decide))
        | none =>
            have hnonempty := h.nonempty
            unfold DecimalText.digits at hnonempty
            rw [hwhole, hfraction] at hnonempty
            exact absurd rfl hnonempty
  | cons c tail =>
      rw [hwhole] at hdigits
      rw [List.cons_append, plain_cons]
      constructor
      · intro hplain tail' heq
        cases heq
        have hhead := hplain rfl
        cases tail with
        | cons c' tail =>
            have hpoint := hhead c' rfl
            have hdigit := hdigits c' (by simp)
            rw [hpoint] at hdigit
            exact absurd hdigit (by decide)
        | nil =>
            refine ⟨rfl, fun hfraction => ?_⟩
            rw [hfraction] at hhead
            cases hexponent : d.exponent with
            | none => rfl
            | some e =>
                rw [hexponent] at hhead
                have hpoint := hhead e.letter rfl
                rcases (h.exponent e hexponent).letter with hlower | hupper
                · rw [hlower] at hpoint
                  exact absurd hpoint (by decide)
                · rw [hupper] at hpoint
                  exact absurd hpoint (by decide)
      · intro hzero hc c' hc'
        rcases hzero tail (by rw [hc]) with ⟨rfl, hexponent⟩
        cases hfraction : d.fraction with
        | some digits =>
            rw [hfraction] at hc'
            exact (Option.some.inj hc').symm
        | none =>
            rw [hfraction, hexponent hfraction] at hc'
            cases hc'

theorem isDecimal_text (h : d.WellFormed) :
    isDecimal d.text = true <-> Plain d.magnitudeText := by
  unfold isDecimal DecimalText.text
  rw [Bool.and_eq_true, decide_eq_true_eq, List.all_eq_true]
  simp only [decide_eq_true_eq]
  rcases h.head with ⟨first, tail, hhead, hfirst⟩
  have hminus : first ≠ minus := by
    intro heq
    rw [heq] at hfirst
    exact absurd hfirst (by decide)
  cases d.negative with
  | true =>
      have hx : forall c, c ∈ minus :: d.magnitudeText -> c ≠ 120 ∧ c ≠ 88 := by
        intro c hc
        rcases List.mem_cons.mp hc with hc | hc
        · rw [hc]
          decide
        · exact h.not_x hc
      constructor
      · intro hall hzero
        apply hall.left.right
        rcases hzero with ⟨hlong, hfront, hnext⟩
        rw [hhead] at hfront ⊢
        cases hfront
        rw [hhead] at hlong hnext
        exact ⟨Nat.succ_lt_succ hlong, rfl, hnext⟩
      · intro hplain
        refine ⟨⟨?_, ?_⟩, hx⟩
        · intro hzero
          have hfront := Option.some.inj hzero.right.left
          exact absurd hfront (by decide)
        · intro hzero
          rcases hzero with ⟨hlong, hfront, hnext⟩
          apply hplain
          rw [hhead] at hlong hfront hnext ⊢
          have hsame := (List.cons.inj (List.cons.inj hfront).right).left
          exact ⟨Nat.lt_of_succ_lt_succ hlong, by rw [hsame]; rfl, hnext⟩
  | false =>
      constructor
      · intro hall
        exact hall.left.left
      · intro hplain
        refine ⟨⟨hplain, ?_⟩, fun c hc => h.not_x hc⟩
        intro hzero
        have hfront := hzero.right.left
        change List.take 2 d.magnitudeText = _ at hfront
        rw [hhead] at hfront
        exact hminus (List.cons.inj hfront).left

theorem isDecimal_iff (h : d.WellFormed) :
    isDecimal d.text = true <->
      forall tail, d.whole = 48 :: tail ->
        tail = [] ∧ (d.fraction = none -> d.exponent = none) :=
  (isDecimal_text h).trans (plain_magnitudeText h)

theorem take_length_sub (text rest : Bytes) :
    (text ++ rest).take ((text ++ rest).length - rest.length) = text := by
  rw [List.length_append, Nat.add_sub_cancel]
  exact List.take_left

theorem parseNumberValue_text (h : NumberText d) {value : Int}
    (hvalue : d.integral = some value) (hends : Ends rest) :
    parseNumberValue (d.text ++ rest) = some (.number value, rest) := by
  unfold parseNumberValue
  rw [strtod_append h.wellFormed hends]
  dsimp only
  rw [hvalue, take_length_sub]
  exact if_pos ((isDecimal_iff h.wellFormed).mpr h.noLeadingZero)

theorem strtod_nothing {c : UInt8} (hc : isDigit c = true) (s : Bytes) :
    strtod (c :: s) ≠ .nothing := by
  have hminus : c ≠ minus := by
    intro heq
    rw [heq] at hc
    exact absurd hc (by decide)
  unfold strtod
  dsimp only
  rw [if_neg hminus]
  unfold scanMagnitude
  split
  · exact Scanned.noConfusion
  · split
    · exact Scanned.noConfusion
    · dsimp only
      rw [if_neg]
      · exact Scanned.noConfusion
      · unfold DecimalText.digits
        dsimp only
        rw [List.takeWhile_cons_of_pos hc]
        exact List.cons_ne_nil _ _

/-- What is read as a number is one; a minus without digits is left where it
is. -/
theorem text_of_parseNumberValue {c : UInt8}
    (hc : c = minus ∨ isDigit c = true)
    (h : parseNumberValue (c :: s) = some (v, rest)) :
    (exists d value, NumberText d ∧ d.integral = some value ∧
      v = .number value ∧ c :: s = d.text ++ rest) ∨
    (v = .number 0 ∧ rest.head? = some minus) := by
  unfold parseNumberValue at h
  split at h
  · rename_i d rest' hscan
    split at h
    · cases h
    · rename_i value hvalue
      split at h
      · rename_i hdecimal
        cases h
        rcases strtod_decimal hscan with ⟨hd, hs⟩
        rw [hs, take_length_sub] at hdecimal
        refine .inl ⟨d, value, ⟨hd, ?_, (isDecimal_iff hd).mp hdecimal⟩,
          hvalue, rfl, hs⟩
        by_contra hnot
        rw [not_or, not_not] at hnot
        rcases hnot with ⟨hpositive, hwhole⟩
        unfold DecimalText.text DecimalText.magnitudeText at hs
        rw [if_neg hpositive, hwhole] at hs
        cases hfraction : d.fraction with
        | none =>
            have hnonempty := hd.nonempty
            unfold DecimalText.digits at hnonempty
            rw [hwhole, hfraction] at hnonempty
            exact hnonempty rfl
        | some digits =>
            rw [hfraction] at hs
            have hpoint : c = point := (List.cons.inj hs).left
            rw [hpoint] at hc
            exact absurd hc (by decide)
      · cases h
  · cases h
  · cases h
  · rename_i hnothing
    cases h
    rcases hc with hminus | hdigit
    · exact .inr ⟨rfl, congrArg some hminus⟩
    · exact absurd hnothing (strtod_nothing hdigit s)

/-!
## Tokens
-/

section Tokens

variable {s rest token : Bytes} {v value : Json}

theorem parseToken_iff :
    parseToken token value s = some (v, rest) <->
      v = value ∧ s = token ++ rest := by
  unfold parseToken
  constructor
  · intro h
    split at h
    · rename_i htoken
      cases h
      refine ⟨rfl, ?_⟩
      calc s = s.take token.length ++ s.drop token.length :=
            (List.take_append_drop _ _).symm
        _ = token ++ s.drop token.length := by rw [htoken]
    · cases h
  · intro h
    rcases h with ⟨rfl, rfl⟩
    rw [List.take_left, List.drop_left, if_pos rfl]

theorem parseBooleanValue_iff :
    parseBooleanValue s = some (v, rest) <->
      (v = .boolean true ∧ s = ascii "true" ++ rest) ∨
        (v = .boolean false ∧ s = ascii "false" ++ rest) := by
  unfold parseBooleanValue
  cases htrue : parseToken (ascii "true") (.boolean true) s with
  | some read =>
      rcases read with ⟨v', rest'⟩
      rcases parseToken_iff.mp htrue with ⟨rfl, hs⟩
      constructor
      · intro h
        cases h
        exact .inl ⟨rfl, hs⟩
      · intro h
        rcases h with ⟨rfl, hs'⟩ | ⟨rfl, hs'⟩
        · rw [hs] at hs'
          rw [List.append_cancel_left hs']
        · rw [hs] at hs'
          exact absurd (List.cons.inj hs').left (by decide)
  | none =>
      dsimp only
      rw [parseToken_iff]
      constructor
      · exact .inr
      · intro h
        rcases h with htoken | htoken
        · rw [parseToken_iff.mpr htoken] at htrue
          cases htrue
        · exact htoken

end Tokens

/-!
## Items
-/

section Items

variable {item : Type} {itemText : Bytes -> item -> Prop}
  {parseItem : Bytes -> Option (item × Bytes)}
  {add : List item -> item -> Option (List item)} {close : UInt8}
  {s text rest : Bytes} {x : item} {xs output out : List item}

/-- What the loop relies on: a parser of items takes the text of an item where
something ends it, and only that, or it stops at a minus. -/
structure ItemParser (itemText : Bytes -> item -> Prop)
    (parseItem : Bytes -> Option (item × Bytes)) (close : UInt8) : Prop where
  read : forall {text rest x}, itemText text x -> Ends rest ->
    parseItem (text ++ rest) = some (x, rest)
  text : forall {s rest x}, Started s -> parseItem s = some (x, rest) ->
    (exists text, itemText text x ∧ s = text ++ rest) ∨
      rest.head? = some minus
  head : forall {text x}, itemText text x ->
    exists c tail, text = c :: tail ∧ isSpace c = false ∧ c ≠ close

/-- A bracket that ends a number, and is neither a comma nor a minus. -/
structure ClosingBracket (close : UInt8) : Prop where
  ends : isDigit close = false ∧ close ≠ point ∧ close ≠ 101 ∧ close ≠ 69 ∧
    close ≠ 120 ∧ close ≠ 88
  space : isSpace close = false
  comma : close ≠ comma
  minus : close ≠ minus

theorem closeItems_iff :
    closeItems close output s = some (out, rest) <->
      out = output ∧ s = close :: rest := by
  unfold closeItems
  cases s with
  | nil => simp
  | cons c s =>
      dsimp only
      constructor
      · intro h
        split at h
        · rename_i hc
          cases h
          exact ⟨rfl, by rw [hc]⟩
        · cases h
      · intro h
        rcases h with ⟨rfl, heq⟩
        cases heq
        exact if_pos rfl

theorem ItemsText.head (hp : ItemParser itemText parseItem close)
    (h : ItemsText itemText text xs) :
    exists c tail, text = c :: tail ∧ isSpace c = false ∧ c ≠ close := by
  have happend : forall {t : Bytes} {x : item} (w : Bytes), itemText t x ->
      exists c tail, t ++ w = c :: tail ∧ isSpace c = false ∧ c ≠ close := by
    intro t x w hx
    rcases hp.head hx with ⟨c, tail, rfl, hc⟩
    exact ⟨c, tail ++ w, rfl, hc⟩
  cases h with
  | last hx => exact happend _ hx
  | trailing hx => exact happend _ hx
  | more hx => exact happend _ hx

theorem comma_ends (rest : Bytes) : Ends (comma :: rest) :=
  Ends.cons (by decide) rest

theorem comma_started (rest : Bytes) : Started (comma :: rest) :=
  Started.cons (by decide) rest

section Round

variable {rounds : Nat} {behind : Bytes} {output' : List item}

theorem parseItems_last (hs : s ≠ []) (hread : parseItem s = some (x, behind))
    (hadd : add output x = some output')
    (hbehind : skipWhitespaces behind = close :: rest)
    (hclose : close ≠ comma) :
    parseItems parseItem add close (rounds + 1) s output =
      some (output', rest) := by
  unfold parseItems
  rw [if_neg hs, hread]
  dsimp only
  rw [hadd]
  dsimp only
  rw [hbehind, List.head?_cons, if_pos]
  · exact closeItems_iff.mpr ⟨rfl, rfl⟩
  · intro heq
    exact hclose (Option.some.inj heq)

theorem parseItems_comma (hs : s ≠ []) (hread : parseItem s = some (x, behind))
    (hadd : add output x = some output')
    (hbehind : skipWhitespaces behind = comma :: rest) :
    parseItems parseItem add close (rounds + 1) s output =
      if (skipWhitespaces rest).head? = some close then
        closeItems close output' (skipWhitespaces rest)
      else
        parseItems parseItem add close rounds (skipWhitespaces rest)
          output' := by
  rw [parseItems.eq_def]
  dsimp only
  rw [if_neg hs, hread]
  dsimp only
  rw [hadd]
  dsimp only
  rw [hbehind, List.head?_cons, if_neg (not_not_intro rfl), List.tail_cons]

end Round

/-- The loop reads the items of a text, and adds one after the other. -/
theorem parseItems_text (hp : ItemParser itemText parseItem close)
    (hclose : ClosingBracket close) (h : ItemsText itemText text xs)
    (hadd : xs.foldlM add output = some out) (rest : Bytes) {rounds : Nat}
    (hrounds : text.length < rounds) :
    parseItems parseItem add close rounds (text ++ close :: rest) output =
      some (out, rest) := by
  have hends : Ends (close :: rest) := Ends.cons hclose.ends rest
  have hstarted : Started (close :: rest) := Started.cons hclose.space rest
  have hne : forall {t : Bytes} {x : item} (behind : Bytes), itemText t x ->
      t ++ behind ≠ [] := by
    intro t x behind hx
    rcases hp.head hx with ⟨c, tail, rfl, _⟩
    exact List.cons_ne_nil _ _
  obtain ⟨rounds, rfl⟩ : exists n, rounds = n + 1 :=
    Nat.exists_eq_succ_of_ne_zero (by omega)
  induction h generalizing rounds output with
  | last hx hw =>
      rcases Option.bind_eq_some_iff.mp hadd with ⟨output', hnew, hrest⟩
      cases hrest
      rw [List.append_assoc]
      exact parseItems_last (hne _ hx) (hp.read hx (ends_blank hw hends)) hnew
        (skipWhitespaces_blank hw hstarted) hclose.comma
  | trailing hx hw hw' =>
      rcases Option.bind_eq_some_iff.mp hadd with ⟨output', hnew, hrest⟩
      cases hrest
      simp only [List.append_assoc, List.cons_append]
      rw [parseItems_comma (hne _ hx)
          (hp.read hx (ends_blank hw (comma_ends _))) hnew
          (skipWhitespaces_blank hw (comma_started _)),
        skipWhitespaces_blank hw' hstarted, List.head?_cons, if_pos rfl]
      exact closeItems_iff.mpr ⟨rfl, rfl⟩
  | @more text w w' behind x xs hx hw hw' hbehind ih =>
      rcases Option.bind_eq_some_iff.mp hadd with ⟨output', hnew, hrest⟩
      rcases hbehind.head hp with ⟨next, tail, hnext, hspace, hother⟩
      have hmore : Started (behind ++ close :: rest) := by
        rw [hnext]
        exact Started.cons hspace _
      simp only [List.length_append, List.length_cons] at hrounds
      simp only [List.append_assoc, List.cons_append]
      rw [parseItems_comma (hne _ hx)
          (hp.read hx (ends_blank hw (comma_ends _))) hnew
          (skipWhitespaces_blank hw (comma_started _)),
        skipWhitespaces_blank hw' hmore, if_neg]
      · obtain ⟨rounds, rfl⟩ : exists n, rounds = n + 1 :=
          Nat.exists_eq_succ_of_ne_zero (by omega)
        exact ih hrest rounds (by omega)
      · rw [hnext]
        intro heq
        exact hother (Option.some.inj heq)

/-- What the loop reads is the text of items. -/
theorem text_of_parseItems (hp : ItemParser itemText parseItem close)
    (hclose : ClosingBracket close) {rounds : Nat} (hs : Started s)
    (h : parseItems parseItem add close rounds s output = some (out, rest)) :
    exists text xs, s = text ++ close :: rest ∧ ItemsText itemText text xs ∧
      xs.foldlM add output = some out := by
  induction rounds generalizing s output with
  | zero => cases h
  | succ rounds ih =>
      unfold parseItems at h
      split at h
      · cases h
      · split at h
        · cases h
        · rename_i new behind hread
          split at h
          · cases h
          · rename_i output' hnew
            rcases skipWhitespaces_split behind with ⟨w, hw, hbehind⟩
            rcases hp.text hs hread with ⟨text, hx, rfl⟩ | hminus
            · dsimp only at h
              split at h
              · rcases closeItems_iff.mp h with ⟨rfl, hend⟩
                rw [hend] at hbehind
                refine ⟨text ++ w, [new], ?_, .last hx hw, ?_⟩
                · rw [hbehind, List.append_assoc]
                · exact Option.bind_eq_some_iff.mpr ⟨_, hnew, rfl⟩
              · rename_i hcomma
                rcases List.head?_eq_some_iff.mp (not_not.mp hcomma) with
                  ⟨tail, htail⟩
                rw [htail, List.tail_cons] at h
                rw [htail] at hbehind
                rcases skipWhitespaces_split tail with ⟨w', hw', htail'⟩
                split at h
                · rcases closeItems_iff.mp h with ⟨rfl, hend⟩
                  rw [hend] at htail'
                  refine ⟨text ++ (w ++ comma :: w'), [new], ?_,
                    .trailing hx hw hw', ?_⟩
                  · rw [hbehind, htail']
                    simp only [List.append_assoc, List.cons_append]
                  · exact Option.bind_eq_some_iff.mpr ⟨_, hnew, rfl⟩
                · rcases ih (started_skipWhitespaces _) h with
                    ⟨text', xs, hnext, hitems, hadd⟩
                  rw [hnext] at htail'
                  refine ⟨text ++ (w ++ comma :: (w' ++ text')), new :: xs, ?_,
                    .more hx hw hw' hitems, ?_⟩
                  · rw [hbehind, htail']
                    simp only [List.append_assoc, List.cons_append]
                  · exact Option.bind_eq_some_iff.mpr ⟨_, hnew, hadd⟩
            · -- a minus is neither white space, nor a comma, nor the bracket
              exfalso
              rcases List.head?_eq_some_iff.mp hminus with ⟨tail, rfl⟩
              have hstay : skipWhitespaces (Decimal.minus :: tail) =
                  Decimal.minus :: tail :=
                skipWhitespaces_started (Started.cons (by decide) tail)
              dsimp only at h
              rw [hstay, if_pos (by
                intro heq
                exact absurd (Option.some.inj heq) (by decide))] at h
              rcases closeItems_iff.mp h with ⟨_, heq⟩
              exact hclose.minus (List.cons.inj heq).left.symm

/-- The items between two brackets are read exactly where there are some, and
in their order. -/
theorem parseBracketed_iff (hp : ItemParser itemText parseItem close)
    (hclose : ClosingBracket close) :
    parseBracketed parseItem add close s = some (out, rest) <->
      exists text xs, s = text ++ close :: rest ∧
        BracketedText itemText text xs ∧ xs.foldlM add [] = some out := by
  unfold parseBracketed
  constructor
  · intro h
    rcases skipWhitespaces_split s with ⟨w, hw, hs⟩
    dsimp only at h
    split at h
    · rename_i hempty
      cases h
      rcases List.head?_eq_some_iff.mp hempty with ⟨tail, htail⟩
      rw [htail] at hs ⊢
      exact ⟨w, [], hs, .empty hw, rfl⟩
    · rcases text_of_parseItems hp hclose (started_skipWhitespaces s) h with
        ⟨text, xs, hfirst, hitems, hadd⟩
      rw [hfirst] at hs
      exact ⟨w ++ text, xs, by rw [hs, List.append_assoc],
        .items hw hitems, hadd⟩
  · intro h
    rcases h with ⟨text, xs, rfl, htext, hadd⟩
    cases htext with
    | empty hw =>
        cases hadd
        rw [skipWhitespaces_blank hw (Started.cons hclose.space rest)]
        exact if_pos rfl
    | @items w text xs hw hitems =>
        rcases hitems.head hp with ⟨c, tail, hhead, hspace, hother⟩
        have hstarted : Started (text ++ close :: rest) := by
          rw [hhead]
          exact Started.cons hspace _
        rw [List.append_assoc, skipWhitespaces_blank hw hstarted]
        dsimp only
        rw [if_neg]
        · apply parseItems_text hp hclose hitems hadd
          rw [List.length_append]
          omega
        · rw [hhead]
          intro heq
          exact hother (Option.some.inj heq)

end Items
/-!
## Members
-/

section Members

variable {inner : Bytes -> Json -> Prop}
  {parseInner : Bytes -> Option (Json × Bytes)}
  {members out : List (Bytes × Json)} {items : List Json}

theorem closingBracket : ClosingBracket closeBracket :=
  ⟨by decide, by decide, by decide, by decide⟩

theorem closingBrace : ClosingBracket closeBrace :=
  ⟨by decide, by decide, by decide, by decide⟩

theorem foldlM_jsonArrayAdd (items output : List Json) :
    items.foldlM jsonArrayAdd output = some (output ++ items) := by
  induction items generalizing output with
  | nil => rw [List.append_nil]; rfl
  | cons value items ih =>
      show items.foldlM jsonArrayAdd (output ++ [value]) = _
      rw [ih, List.append_assoc]
      rfl

theorem jsonObjectAdd_iff {member : Bytes × Json} :
    jsonObjectAdd members member = some out <->
      member.1 ∉ members.map Prod.fst ∧ out = members ++ [member] := by
  have hlookup : (members.lookup member.1).isSome = true <->
      member.1 ∈ members.map Prod.fst := by
    rw [List.lookup_isSome_iff, List.mem_map]
    constructor
    · intro h
      rcases h with ⟨m, hm, heq⟩
      exact ⟨m, hm, (eq_of_beq heq).symm⟩
    · intro h
      rcases h with ⟨m, hm, heq⟩
      exact ⟨m, hm, beq_iff_eq.mpr heq.symm⟩
  unfold jsonObjectAdd
  constructor
  · intro h
    split at h
    · cases h
    · rename_i hnew
      cases h
      exact ⟨mt hlookup.mpr hnew, rfl⟩
  · intro h
    rcases h with ⟨hnew, rfl⟩
    exact if_neg (mt hlookup.mp hnew)

theorem nodup_concat {names : List Bytes} {name : Bytes} :
    (names ++ [name]).Nodup <-> names.Nodup ∧ name ∉ names := by
  rw [List.nodup_append]
  constructor
  · intro h
    exact ⟨h.left,
      fun hmem => h.right.right name hmem name List.mem_cons_self rfl⟩
  · intro h
    refine ⟨h.left, List.pairwise_singleton _ name, ?_⟩
    intro a ha b hb heq
    rw [List.mem_singleton.mp hb] at heq
    rw [heq] at ha
    exact h.right ha

/-- Members are added exactly if no name comes twice. -/
theorem foldlM_jsonObjectAdd (output : List (Bytes × Json))
    (houtput : (output.map Prod.fst).Nodup) :
    members.foldlM jsonObjectAdd output = some out <->
      ((output ++ members).map Prod.fst).Nodup ∧ out = output ++ members := by
  induction members generalizing output with
  | nil =>
      rw [List.append_nil]
      constructor
      · intro h
        cases h
        exact ⟨houtput, rfl⟩
      · intro h
        rw [h.right]
        rfl
  | cons member members ih =>
      have hassoc : output ++ member :: members =
          (output ++ [member]) ++ members := by
        rw [List.append_assoc]
        rfl
      have hnames : (output ++ [member]).map Prod.fst =
          output.map Prod.fst ++ [member.1] := List.map_append
      rw [hassoc]
      constructor
      · intro h
        rcases Option.bind_eq_some_iff.mp h with ⟨output', hadd, hrest⟩
        rcases jsonObjectAdd_iff.mp hadd with ⟨hnew, rfl⟩
        refine (ih _ ?_).mp hrest
        rw [hnames, nodup_concat]
        exact ⟨houtput, hnew⟩
      · intro h
        have hfront : ((output ++ [member]).map Prod.fst).Nodup := by
          rw [List.map_append] at h
          exact (List.nodup_append.mp h.left).left
        have hnew : member.1 ∉ output.map Prod.fst := by
          rw [hnames, nodup_concat] at hfront
          exact hfront.right
        exact Option.bind_eq_some_iff.mpr
          ⟨_, jsonObjectAdd_iff.mpr ⟨hnew, rfl⟩, (ih _ hfront).mpr h⟩

/-- What {lit}`parse_value` promises about the parts of a value. -/
structure PartParser (inner : Bytes -> Json -> Prop)
    (parseInner : Bytes -> Option (Json × Bytes)) : Prop where
  items : ItemParser inner parseInner closeBracket
  skip : forall s, parseInner s = parseInner (skipWhitespaces s)

theorem parseMember_text (hp : PartParser inner parseInner) {text rest : Bytes}
    {member : Bytes × Json} (h : MemberText inner text member)
    (hends : Ends rest) :
    parseMember parseInner (text ++ rest) = some (member, rest) := by
  cases h with
  | @member name key w w' text value hname hkey hw hw' hvalue =>
      rcases hp.items.head hvalue with ⟨c, tail, htext, hspace, _⟩
      have hquoted : getQuotedString
          (quote :: (name ++ quote :: (w ++ colon :: (w' ++ text))) ++ rest) =
            some (key, w ++ colon :: (w' ++ (text ++ rest))) := by
        rw [getQuotedString_iff]
        exact ⟨name, by simp, hname⟩
      have hstarted : Started (text ++ rest) := by
        rw [htext]
        exact Started.cons hspace _
      unfold parseMember
      rw [hquoted]
      dsimp only
      rw [if_neg hkey,
        skipWhitespaces_blank hw (Started.cons (by decide) _)]
      dsimp only
      rw [if_neg (not_not_intro rfl), hp.skip,
        skipWhitespaces_blank hw' hstarted, hp.items.read hvalue hends]
      rfl

theorem text_of_parseMember (hp : PartParser inner parseInner)
    {s rest : Bytes} {member : Bytes × Json}
    (h : parseMember parseInner s = some (member, rest)) :
    (exists text, MemberText inner text member ∧ s = text ++ rest) ∨
      rest.head? = some minus := by
  unfold parseMember at h
  split at h
  · cases h
  · rename_i key behind hquoted
    rcases getQuotedString_iff.mp hquoted with ⟨name, rfl, hname⟩
    split at h
    · cases h
    · rename_i hkey
      rcases skipWhitespaces_split behind with ⟨w, hw, hbehind⟩
      split at h
      · cases h
      · rename_i c next hnext
        split at h
        · cases h
        · rename_i hcolon
          rcases Option.map_eq_some_iff.mp h with ⟨⟨value, rest'⟩, hvalue, heq⟩
          cases heq
          rw [hp.skip] at hvalue
          rcases skipWhitespaces_split next with ⟨w', hw', hnext'⟩
          rcases hp.items.text (started_skipWhitespaces _) hvalue with
            ⟨text, htext, hs⟩ | hminus
          · left
            refine ⟨_, .member hname hkey hw hw' htext, ?_⟩
            rw [hbehind, hnext, hnext', hs, not_not.mp hcolon]
            simp
          · exact .inr hminus

theorem memberParser (hp : PartParser inner parseInner) :
    ItemParser (MemberText inner) (parseMember parseInner) closeBrace where
  read := parseMember_text hp
  text := fun _ h => text_of_parseMember hp h
  head := by
    intro text member h
    cases h with
    | member => exact ⟨quote, _, rfl, by decide, by decide⟩

theorem parseArrayValue_iff (hp : PartParser inner parseInner)
    {s rest : Bytes} {v : Json} :
    parseArrayValue parseInner s = some (v, rest) <->
      exists text items, s = text ++ closeBracket :: rest ∧
        BracketedText inner text items ∧ v = .array items := by
  unfold parseArrayValue
  constructor
  · intro h
    rcases Option.map_eq_some_iff.mp h with ⟨⟨items, rest'⟩, hread, heq⟩
    cases heq
    rcases (parseBracketed_iff hp.items closingBracket).mp hread with
      ⟨text, xs, hs, htext, hadd⟩
    rw [foldlM_jsonArrayAdd] at hadd
    cases hadd
    exact ⟨text, xs, hs, htext, rfl⟩
  · intro h
    rcases h with ⟨text, items, hs, htext, rfl⟩
    exact Option.map_eq_some_iff.mpr ⟨(items, rest),
      (parseBracketed_iff hp.items closingBracket).mpr
        ⟨text, items, hs, htext, foldlM_jsonArrayAdd items []⟩, rfl⟩

theorem parseObjectValue_iff (hp : PartParser inner parseInner)
    {s rest : Bytes} {v : Json} :
    parseObjectValue parseInner s = some (v, rest) <->
      exists text members, s = text ++ closeBrace :: rest ∧
        BracketedText (MemberText inner) text members ∧
        (members.map Prod.fst).Nodup ∧ v = .object members := by
  unfold parseObjectValue
  constructor
  · intro h
    rcases Option.map_eq_some_iff.mp h with ⟨⟨members, rest'⟩, hread, heq⟩
    cases heq
    rcases (parseBracketed_iff (memberParser hp) closingBrace).mp hread with
      ⟨text, xs, hs, htext, hadd⟩
    rcases (foldlM_jsonObjectAdd [] .nil).mp hadd with ⟨hnames, rfl⟩
    exact ⟨text, _, hs, htext, hnames, rfl⟩
  · intro h
    rcases h with ⟨text, members, hs, htext, hnames, rfl⟩
    exact Option.map_eq_some_iff.mpr ⟨(members, rest),
      (parseBracketed_iff (memberParser hp) closingBrace).mpr
        ⟨text, members, hs, htext,
          (foldlM_jsonObjectAdd [] .nil).mpr ⟨hnames, rfl⟩⟩, rfl⟩

end Members

/-!
## Values
-/

section Values

variable {room : Nat} {c : UInt8} {s text rest : Bytes} {v : Json}

theorem parseValue_cons (hc : isSpace c = false) (s : Bytes) :
    parseValue (room + 1) (c :: s) =
      if c = openBrace then parseObjectValue (parseValue room) s
      else if c = openBracket then parseArrayValue (parseValue room) s
      else if c = quote then parseStringValue (c :: s)
      else if c = 102 ∨ c = 116 then parseBooleanValue (c :: s)
      else if c = minus ∨ isDigit c = true then parseNumberValue (c :: s)
      else if c = 110 then parseNullValue (c :: s)
      else none := by
  rw [parseValue.eq_def]
  dsimp only
  rw [skipWhitespaces_started (Started.cons hc s)]

theorem parseValue_skip (room : Nat) (s : Bytes) :
    parseValue room s = parseValue room (skipWhitespaces s) := by
  cases room with
  | zero => rfl
  | succ room =>
      unfold parseValue
      rw [skipWhitespaces_started (started_skipWhitespaces s)]

theorem number_head (hc : c = minus ∨ isDigit c = true) :
    isSpace c = false ∧ c ≠ openBrace ∧ c ≠ openBracket ∧ c ≠ closeBracket ∧
      c ≠ quote ∧ ¬ (c = 102 ∨ c = 116) := by
  rcases hc with rfl | hdigit
  · decide
  · refine ⟨isSpace_of_isDigit hdigit, ?_, ?_, ?_, ?_, ?_⟩
    all_goals
      intro heq
    case refine_5 =>
      rcases heq with rfl | rfl <;> exact absurd hdigit (by decide)
    all_goals
      rw [heq] at hdigit
      exact absurd hdigit (by decide)

theorem NumberText.text_head {d : DecimalText} (h : NumberText d) :
    exists c tail, d.text = c :: tail ∧ (c = minus ∨ isDigit c = true) := by
  unfold DecimalText.text
  cases hnegative : d.negative with
  | true => exact ⟨minus, _, rfl, .inl rfl⟩
  | false =>
      rcases h.head with hminus | hwhole
      · rw [hnegative] at hminus
        cases hminus
      · have hdigits := h.wellFormed.whole
        unfold DecimalText.magnitudeText
        cases hcons : d.whole with
        | nil => exact absurd hcons hwhole
        | cons c tail =>
            rw [hcons] at hdigits
            exact ⟨c, _, rfl, .inr (hdigits c List.mem_cons_self)⟩

theorem NodeText.text_head {inner : Bytes -> Json -> Prop}
    (h : NodeText inner text v) :
    exists c tail, text = c :: tail ∧ isSpace c = false ∧
      c ≠ closeBracket := by
  cases h with
  | nullToken => exact ⟨110, _, rfl, by decide, by decide⟩
  | trueToken => exact ⟨116, _, rfl, by decide, by decide⟩
  | falseToken => exact ⟨102, _, rfl, by decide, by decide⟩
  | number hd =>
      rcases hd.text_head with ⟨c, tail, htext, hc⟩
      rcases number_head hc with ⟨hspace, _, _, hclose, _⟩
      exact ⟨c, tail, htext, hspace, hclose⟩
  | string => exact ⟨quote, _, rfl, by decide, by decide⟩
  | array => exact ⟨openBracket, _, rfl, by decide, by decide⟩
  | object => exact ⟨openBrace, _, rfl, by decide, by decide⟩

/-- A value is read where its text is; behind a number something ends it. -/
theorem parseValue_text (hp : PartParser (ValueText room) (parseValue room))
    (h : NodeText (ValueText room) text v)
    (hends : Ends rest ∨ text.head? = some openBracket ∨
      text.head? = some openBrace) :
    parseValue (room + 1) (text ++ rest) = some (v, rest) := by
  cases h with
  | nullToken =>
      show parseValue (room + 1) (110 :: _) = _
      rw [parseValue_cons (by decide), if_neg (by decide), if_neg (by decide),
        if_neg (by decide), if_neg (by decide), if_neg (by decide), if_pos rfl]
      exact parseToken_iff.mpr ⟨rfl, rfl⟩
  | trueToken =>
      show parseValue (room + 1) (116 :: _) = _
      rw [parseValue_cons (by decide), if_neg (by decide), if_neg (by decide),
        if_neg (by decide), if_pos (by decide)]
      exact parseBooleanValue_iff.mpr (.inl ⟨rfl, rfl⟩)
  | falseToken =>
      show parseValue (room + 1) (102 :: _) = _
      rw [parseValue_cons (by decide), if_neg (by decide), if_neg (by decide),
        if_neg (by decide), if_pos (by decide)]
      exact parseBooleanValue_iff.mpr (.inr ⟨rfl, rfl⟩)
  | @number d value hd hvalue =>
      rcases hd.text_head with ⟨c, tail, htext, hc⟩
      rcases number_head hc with
        ⟨hspace, hbrace, hbracket, _, hquote, hboolean⟩
      have hrest : Ends rest := by
        rcases hends with hends | hhead | hhead
        · exact hends
        · rw [htext] at hhead
          exact absurd (Option.some.inj hhead) hbracket
        · rw [htext] at hhead
          exact absurd (Option.some.inj hhead) hbrace
      have hnumber := parseNumberValue_text hd hvalue hrest
      rw [htext] at hnumber ⊢
      rw [List.cons_append, parseValue_cons hspace, if_neg hbrace,
        if_neg hbracket, if_neg hquote, if_neg hboolean, if_pos hc]
      exact hnumber
  | @string text chars hstring =>
      have hquoted : getQuotedString (quote :: (text ++ [quote]) ++ rest) =
          some (chars, rest) := by
        rw [getQuotedString_iff]
        exact ⟨text, by simp, hstring⟩
      rw [List.cons_append] at hquoted ⊢
      rw [parseValue_cons (by decide), if_neg (by decide), if_neg (by decide),
        if_pos rfl]
      unfold parseStringValue
      rw [hquoted]
      rfl
  | @array text items harray =>
      rw [List.cons_append, parseValue_cons (by decide), if_neg (by decide),
        if_pos rfl]
      exact (parseArrayValue_iff hp).mpr
        ⟨text, items, by simp, harray, rfl⟩
  | @object text members hobject hnames =>
      rw [List.cons_append, parseValue_cons (by decide), if_pos rfl]
      exact (parseObjectValue_iff hp).mpr
        ⟨text, members, by simp, hobject, hnames, rfl⟩

theorem text_of_parseValue (hp : PartParser (ValueText room) (parseValue room))
    (hs : Started s) (h : parseValue (room + 1) s = some (v, rest)) :
    (exists text, NodeText (ValueText room) text v ∧ s = text ++ rest) ∨
      (v = .number 0 ∧ rest.head? = some minus) := by
  cases s with
  | nil => cases h
  | cons c s =>
      rw [parseValue_cons (hs c rfl)] at h
      split at h
      · rename_i hbrace
        rcases (parseObjectValue_iff hp).mp h with
          ⟨text, members, rfl, htext, hnames, rfl⟩
        refine .inl ⟨_, .object htext hnames, ?_⟩
        rw [hbrace]
        simp
      · split at h
        · rename_i hbracket
          rcases (parseArrayValue_iff hp).mp h with
            ⟨text, items, rfl, htext, rfl⟩
          refine .inl ⟨_, .array htext, ?_⟩
          rw [hbracket]
          simp
        · split at h
          · rcases Option.map_eq_some_iff.mp h with
              ⟨⟨chars, rest'⟩, hquoted, heq⟩
            cases heq
            rcases getQuotedString_iff.mp hquoted with ⟨text, htext, hstring⟩
            refine .inl ⟨_, .string hstring, ?_⟩
            rw [htext]
            simp
          · split at h
            · rcases parseBooleanValue_iff.mp h with ⟨rfl, htext⟩ | ⟨rfl, htext⟩
              · exact .inl ⟨_, .trueToken, htext⟩
              · exact .inl ⟨_, .falseToken, htext⟩
            · split at h
              · rename_i hc
                rcases text_of_parseNumberValue hc h with
                  ⟨d, value, hd, hvalue, rfl, htext⟩ | hminus
                · exact .inl ⟨_, .number hd hvalue, htext⟩
                · exact .inr hminus
              · split at h
                · rcases parseToken_iff.mp h with ⟨rfl, htext⟩
                  exact .inl ⟨_, .nullToken, htext⟩
                · cases h

/-- At every depth, parts are read as their texts say. -/
theorem partParser (room : Nat) :
    PartParser (ValueText room) (parseValue room) := by
  induction room with
  | zero => exact ⟨⟨nofun, nofun, nofun⟩, fun _ => rfl⟩
  | succ room ih =>
      exact ⟨⟨fun h hends => parseValue_text ih h (.inl hends),
        fun hs h => (text_of_parseValue ih hs h).imp_right And.right,
        NodeText.text_head⟩,
        parseValue_skip _⟩

end Values
/-!
## Documents
-/

section Documents

variable {room : Nat} {s rest : Bytes} {v : Json}

/-- An array or an object. -/
def Compound : Json -> Prop
  | .array _ => True
  | .object _ => True
  | _ => False

theorem NodeText.bracket {inner : Bytes -> Json -> Prop} {text : Bytes}
    (hv : Compound v) (h : NodeText inner text v) :
    text.head? = some openBracket ∨ text.head? = some openBrace := by
  cases h with
  | array => exact .inl rfl
  | object => exact .inr rfl
  | nullToken => cases hv
  | trueToken => cases hv
  | falseToken => cases hv
  | number => cases hv
  | string => cases hv

theorem parseValue_compound_iff (hv : Compound v) :
    parseValue (room + 1) s = some (v, rest) <->
      exists w text, Blank w ∧ ValueText (room + 1) text v ∧
        s = w ++ (text ++ rest) := by
  constructor
  · intro h
    rw [parseValue_skip] at h
    rcases skipWhitespaces_split s with ⟨w, hw, hs⟩
    rcases text_of_parseValue (partParser room) (started_skipWhitespaces s) h
      with ⟨text, htext, hskip⟩ | ⟨rfl, _⟩
    · rw [hskip] at hs
      exact ⟨w, text, hw, htext, hs⟩
    · cases hv
  · intro h
    rcases h with ⟨w, text, hw, htext, rfl⟩
    have hread : parseValue (room + 1) (text ++ rest) = some (v, rest) :=
      parseValue_text (partParser room) htext (.inr (htext.bracket hv))
    rcases NodeText.text_head htext with ⟨c, tail, hhead, hspace, _⟩
    have hstarted : Started (text ++ rest) := by
      rw [hhead]
      exact Started.cons hspace _
    rw [parseValue_skip, skipWhitespaces_blank hw hstarted]
    exact hread

theorem mark_ne {w text : Bytes} (hw : Blank w) (hv : Compound v)
    (h : NodeText (ValueText room) text v) :
    (w ++ (text ++ rest)).take 3 ≠ byteOrderMark := by
  intro hmark
  cases w with
  | nil =>
      rcases h.text_head with ⟨c, tail, rfl, _⟩
      have hc := (List.cons.inj hmark).left
      rcases h.bracket hv with hhead | hhead
      · rw [hc] at hhead
        exact absurd (Option.some.inj hhead) (by decide)
      · rw [hc] at hhead
        exact absurd (Option.some.inj hhead) (by decide)
  | cons c w =>
      have hspace := hw c List.mem_cons_self
      rw [(List.cons.inj hmark).left] at hspace
      exact absurd hspace (by decide)

theorem text_of_jsonParseString (hv : Compound v)
    (h : jsonParseString s = some v) :
    exists mark w text rest, (mark = [] ∨ mark = byteOrderMark) ∧ Blank w ∧
      ValueText (maxNesting + 1) text v ∧
      s = mark ++ (w ++ (text ++ rest)) := by
  rcases Option.map_eq_some_iff.mp h with ⟨⟨v', rest⟩, hread, rfl⟩
  rcases (parseValue_compound_iff hv).mp hread with ⟨w, text, hw, htext, hs⟩
  by_cases hmark : s.take 3 = byteOrderMark
  · rw [if_pos hmark] at hs
    refine ⟨byteOrderMark, w, text, rest, .inr rfl, hw, htext, ?_⟩
    rw [← hs, ← hmark, List.take_append_drop]
  · rw [if_neg hmark] at hs
    exact ⟨[], w, text, rest, .inl rfl, hw, htext, hs⟩

theorem jsonParseString_text {mark w text : Bytes} (hv : Compound v)
    (hmark : mark = [] ∨ mark = byteOrderMark) (hw : Blank w)
    (htext : ValueText (maxNesting + 1) text v) (rest : Bytes) :
    jsonParseString (mark ++ (w ++ (text ++ rest))) = some v := by
  have hread : parseValue (maxNesting + 1) (w ++ (text ++ rest)) =
      some (v, rest) :=
    (parseValue_compound_iff hv).mpr ⟨w, text, hw, htext, rfl⟩
  unfold jsonParseString
  refine Option.map_eq_some_iff.mpr ⟨(v, rest), ?_, rfl⟩
  rcases hmark with rfl | rfl
  · rw [List.nil_append, if_neg (mark_ne hw hv htext)]
    exact hread
  · exact hread

/-- The parser builds an array or an object exactly if the text of one is at
the front, behind a byte order mark and white space. -/
theorem jsonParseString_iff (hv : Compound v) :
    jsonParseString s = some v <->
      exists mark w text rest, (mark = [] ∨ mark = byteOrderMark) ∧ Blank w ∧
        ValueText (maxNesting + 1) text v ∧
        s = mark ++ (w ++ (text ++ rest)) := by
  constructor
  · exact text_of_jsonParseString hv
  · intro h
    rcases h with ⟨mark, w, text, rest, hmark, hw, htext, rfl⟩
    exact jsonParseString_text hv hmark hw htext rest

theorem jsonParseString_iff_spaced :
    jsonParseString (ascii " [ ] x") = some (.array []) :=
  (jsonParseString_iff (v := .array []) trivial).mpr
    ⟨[], [32], ascii "[ ]", ascii " x", .inl rfl, by decide,
      .array (.empty (w := [32]) (by decide)), rfl⟩

end Documents

/-!
## What a document cannot be
-/

/-- A value of at most the given depth, in whose objects no name comes twice
and no name has an embedded NUL. -/
def Legal : Nat -> Json -> Prop
  | 0, _ => False
  | room + 1, .array items => forall x, x ∈ items -> Legal room x
  | room + 1, .object members =>
      (members.map Prod.fst).Nodup ∧
        forall m, m ∈ members -> 0 ∉ m.1 ∧ Legal room m.2
  | _ + 1, _ => True

section Legal

variable {item : Type} {itemText : Bytes -> item -> Prop} {text : Bytes}
  {xs : List item} {x : item}

theorem ItemsText.of_mem (h : ItemsText itemText text xs) (hx : x ∈ xs) :
    exists t, itemText t x := by
  induction h with
  | last h =>
      rw [List.mem_singleton.mp hx]
      exact ⟨_, h⟩
  | trailing h =>
      rw [List.mem_singleton.mp hx]
      exact ⟨_, h⟩
  | more h _ _ _ ih =>
      rcases List.mem_cons.mp hx with rfl | hmem
      · exact ⟨_, h⟩
      · exact ih hmem

theorem BracketedText.of_mem (h : BracketedText itemText text xs)
    (hx : x ∈ xs) : exists t, itemText t x := by
  cases h with
  | empty => cases hx
  | items _ h => exact h.of_mem hx

theorem legal_of_text {room : Nat} {v : Json} (h : ValueText room text v) :
    Legal room v := by
  induction room generalizing text v with
  | zero => exact h
  | succ room ih =>
      cases h with
      | array h =>
          intro x hx
          rcases h.of_mem hx with ⟨t, ht⟩
          exact ih ht
      | object h hnames =>
          refine ⟨hnames, fun m hm => ?_⟩
          rcases h.of_mem hm with ⟨t, ht⟩
          cases ht with
          | member _ hkey _ _ hvalue => exact ⟨hkey, ih hvalue⟩
      | nullToken => trivial
      | trueToken => trivial
      | falseToken => trivial
      | number => trivial
      | string => trivial

/-- Whatever the text, the document is of bounded depth, and a name stands for
one value in each of its objects. -/
theorem jsonParseString_legal {s : Bytes} {v : Json}
    (h : jsonParseString s = some v) : Legal (maxNesting + 1) v := by
  rcases Option.map_eq_some_iff.mp h with ⟨⟨v', rest⟩, hread, rfl⟩
  rw [parseValue_skip] at hread
  rcases text_of_parseValue (partParser maxNesting)
    (started_skipWhitespaces _) hread with ⟨text, htext, _⟩ | ⟨hzero, _⟩
  · exact legal_of_text htext
  · dsimp only at hzero ⊢
    rw [hzero]
    trivial

theorem memberText_letter {inner : Bytes -> Json -> Prop} {c : UInt8}
    {text : Bytes} {value : Json}
    (hletter : 0x20 <= c ∧ c ≠ quote ∧ c ≠ backslash)
    (h : inner text value) :
    MemberText inner (quote :: c :: quote :: colon :: text) ([c], value) := by
  rcases hletter with ⟨hcontrol, hquote, hbackslash⟩
  have hkey : (0 : UInt8) ∉ [c] := by
    intro hmem
    rw [← List.mem_singleton.mp hmem] at hcontrol
    exact absurd hcontrol (by decide)
  exact .member (.cons (.plain hcontrol hquote hbackslash) .nil) hkey
    Blank.nil Blank.nil h

/-- The text of an object with two members. -/
theorem valueText_twoNames :
    ValueText (maxNesting + 1) (ascii "\x7b\"a\":null,\"b\":[]\x7d")
      (.object [(ascii "a", .null), (ascii "b", .array [])]) := by
  have hfirst : MemberText (ValueText maxNesting) _ ([97], .null) :=
    memberText_letter (by decide) .nullToken
  have hsecond : MemberText (ValueText maxNesting) _ ([98], .array []) :=
    memberText_letter (by decide) (.array (.empty Blank.nil))
  have hobject : ValueText (maxNesting + 1) _
      (.object [([97], .null), ([98], .array [])]) :=
    .object (.items Blank.nil (.more hfirst Blank.nil Blank.nil
      (.last hsecond Blank.nil))) (by decide)
  exact hobject

theorem jsonParseString_legal_nested :
    Legal (maxNesting + 1)
      (.object [(ascii "a", .null), (ascii "b", .array [])]) :=
  jsonParseString_legal (jsonParseString_text (v := .object _) trivial
    (.inl rfl) Blank.nil valueText_twoNames [])

end Legal

end Numbers

end Parson

end Stns
