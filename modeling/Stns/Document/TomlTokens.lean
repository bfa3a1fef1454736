import Stns.Document.TomlRender
import Stns.Foundation.Outcome

/-!
# Tokens of a written file

A word that is written in front of a sign is read back as one token, whatever
follows the sign.
-/

namespace Stns

namespace TomlParser

/-- A text that is one string token in front of a sign. -/
structure IsToken (dot : Bool) (raw : Bytes) : Prop where
  first : exists c rest, raw = c :: rest ∧ punctuation c = none ∧ c ≠ hash ∧
    ¬ (c = 13 ∨ c = 32 ∨ c = 9) ∧ ¬ (dot = true ∧ c = point)
  scan : forall c rest, punctuation c ≠ none ->
    scanText dot (raw ++ c :: rest) = .ok (raw, c :: rest)

/-- What a token is, up to its line. -/
structure Token.Is (t : Token) (tok : TokenType) (text rest : Bytes) :
    Prop where
  tok : t.tok = tok
  text : t.text = text
  rest : t.rest = rest
  eof : t.eof = false

/-- The token that the parser gets at the front of a text. -/
def At (dot : Bool) (text : Bytes) (t : Token) : Prop :=
  exists before : Token, before.rest = text ∧ nextToken dot before = .ok t

/-- A computation that succeeds. -/
abbrev Reads {value : Type} (x : Parse value) (good : value -> Prop) : Prop :=
  Yields x good (fun _ => False)

/-!
## The next token
-/

section Next

variable {dot : Bool} {t : Token} {raw rest : Bytes} {c : UInt8}
  {tok : TokenType}

theorem punctuation_ne (h : punctuation c ≠ none) :
    c ≠ hash ∧ ¬ (c = 13 ∨ c = 32 ∨ c = 9) ∧ c ≠ point ∧ c ≠ quote ∧
      c ≠ apostrophe ∧ isBare dot c = false := by
  have hcases : c = 44 ∨ c = 61 ∨ c = 123 ∨ c = 125 ∨ c = 91 ∨ c = 93 ∨
      c = lineFeed := by
    by_contra hnone
    simp only [not_or] at hnone
    rcases hnone with ⟨h1, h2, h3, h4, h5, h6, h7⟩
    apply h
    simp [punctuation, h1, h2, h3, h4, h5, h6, h7]
  rcases hcases with rfl | rfl | rfl | rfl | rfl | rfl | rfl
  all_goals
    refine ⟨by decide, by decide, by decide, by decide, by decide, ?_⟩
    cases dot <;> decide

theorem skipBlanks_stop (hhash : c ≠ hash)
    (hblank : ¬ (c = 13 ∨ c = 32 ∨ c = 9)) :
    skipBlanks false (c :: rest) = c :: rest := by
  unfold skipBlanks
  rw [if_neg hhash, if_neg hblank]

theorem nextToken_sign (hc : punctuation c = some tok)
    (hrest : t.rest = c :: rest) :
    Reads (nextToken dot t) (fun t' => t'.Is tok [c] rest) := by
  have hne : punctuation c ≠ none := by
    rw [hc]
    exact Option.some_ne_none _
  rcases @punctuation_ne dot _ hne with ⟨hhash, hblank, hpoint, _⟩
  unfold nextToken
  rw [hrest, skipBlanks_stop hhash hblank]
  dsimp only
  rw [if_neg (fun h => hpoint h.right), hc]
  exact ⟨rfl, rfl, rfl, rfl⟩

theorem nextToken_word (hraw : IsToken dot raw) (hc : punctuation c ≠ none)
    (hrest : t.rest = raw ++ c :: rest) :
    Reads (nextToken dot t) (fun t' => t'.Is .string raw (c :: rest)) := by
  have hscan := hraw.scan c rest hc
  rcases hraw.first with ⟨d, more, rfl, hnone, hhash, hblank, hpoint⟩
  rw [List.cons_append] at hrest hscan
  unfold nextToken
  rw [hrest, skipBlanks_stop hhash hblank]
  dsimp only
  rw [if_neg hpoint, hnone]
  unfold scanString
  rw [hscan]
  exact ⟨rfl, rfl, rfl, rfl⟩

theorem nextToken_end (hrest : t.rest = []) :
    Reads (nextToken dot t) (fun t' => t'.eof = true) := by
  unfold nextToken
  rw [hrest]
  exact rfl

theorem At.sign (h : At dot (c :: rest) t) (hc : punctuation c = some tok) :
    t.Is tok [c] rest := by
  rcases h with ⟨before, hrest, hnext⟩
  exact (nextToken_sign hc hrest).of_ok hnext

theorem At.word (h : At dot (raw ++ c :: rest) t) (hraw : IsToken dot raw)
    (hc : punctuation c ≠ none) : t.Is .string raw (c :: rest) := by
  rcases h with ⟨before, hrest, hnext⟩
  exact (nextToken_word hraw hc hrest).of_ok hnext

theorem At.stop (h : At dot [] t) : t.eof = true := by
  rcases h with ⟨before, hrest, hnext⟩
  exact (nextToken_end hrest).of_ok hnext

end Next

/-!
## Words
-/

section Words

variable {dot : Bool} {raw : Bytes}

theorem not_isPrefixOf_triple {mark c : UInt8} {rest : Bytes} (h : c ≠ mark) :
    (triple mark).isPrefixOf (c :: rest) = false := by
  unfold triple
  rw [List.isPrefixOf_cons_cons, beq_eq_false_iff_ne.mpr (Ne.symm h),
    Bool.false_and]

theorem isBare_ne {c : UInt8} (h : isBare dot c = true) :
    punctuation c = none ∧ c ≠ hash ∧ ¬ (c = 13 ∨ c = 32 ∨ c = 9) ∧
      ¬ (dot = true ∧ c = point) ∧ c ≠ quote ∧ c ≠ apostrophe := by
  refine ⟨?_, ?_, ?_, ?_, ?_, ?_⟩
  · by_contra hne
    have hbare := (@punctuation_ne dot _ hne).right.right.right.right.right
    rw [h] at hbare
    cases hbare
  · rintro rfl
    cases dot <;> exact absurd h (by decide)
  · rintro (rfl | rfl | rfl)
    all_goals cases dot <;> exact absurd h (by decide)
  · rintro ⟨rfl, rfl⟩
    exact absurd h (by decide)
  · rintro rfl
    cases dot <;> exact absurd h (by decide)
  · rintro rfl
    cases dot <;> exact absurd h (by decide)

/-- Bare words are numbers, booleans, dates and bare keys. -/
theorem isToken_bare (hne : raw ≠ []) (hbare : raw.all (isBare dot) = true) :
    IsToken dot raw := by
  cases raw with
  | nil => exact absurd rfl hne
  | cons d more =>
      have hd := List.all_eq_true.mp hbare d List.mem_cons_self
      rcases isBare_ne hd with ⟨hnone, hhash, hblank, hpoint, hquote, hap⟩
      refine ⟨⟨d, more, rfl, hnone, hhash, hblank, hpoint⟩, ?_⟩
      intro c rest hc
      have hstop : isBare dot c = false :=
        (@punctuation_ne dot _ hc).right.right.right.right.right
      have htake : (d :: more ++ c :: rest).takeWhile (isBare dot) =
          d :: more := by
        rw [List.takeWhile_append_of_pos (List.all_eq_true.mp hbare)]
        rw [List.takeWhile_cons_of_neg (by rw [hstop]; exact Bool.noConfusion),
          List.append_nil]
      have hdrop : (d :: more ++ c :: rest).dropWhile (isBare dot) =
          c :: rest := by
        rw [List.dropWhile_append_of_pos (List.all_eq_true.mp hbare)]
        rw [List.dropWhile_cons_of_neg (by rw [hstop]; exact Bool.noConfusion)]
      unfold scanText
      rw [htake, hdrop, List.cons_append, not_isPrefixOf_triple hap,
        not_isPrefixOf_triple hquote, List.head?_cons,
        if_neg Bool.noConfusion, if_neg Bool.noConfusion,
        if_neg (fun h => hap (Option.some.inj h)),
        if_neg (fun h => hquote (Option.some.inj h))]

theorem isBare_of_isBareKey {c : UInt8} (h : isBareKey c = true) :
    isBare dot c = true := by
  unfold isBareKey at h
  unfold isBare
  rw [if_neg]
  · rcases Bool.or_eq_true_iff.mp h with h | h
    · rcases Bool.or_eq_true_iff.mp h with h | h
      · rw [h, Bool.true_or]
      · rw [eq_of_beq h]
        decide
    · rw [eq_of_beq h]
      decide
  · rintro ⟨rfl, _⟩
    exact absurd h (by decide)

end Words

/-!
## Strings in quotes
-/

section Quoted

theorem scanQuoted_escapeChar (c : UInt8) (more : Bytes) :
    scanQuoted Escape.start (escapeChar c ++ more) =
      (scanQuoted Escape.start more).map
        (fun split => (escapeChar c ++ split.1, split.2)) := by
  rcases escapeChar_cases c with
    ⟨e, heq, _, he, hline, _⟩ | ⟨heq, hquote, hbackslash, hline⟩
  · have hopen : scanEscape false Escape.start backslash =
        .ok (some ⟨true, 0⟩) := rfl
    have hclose : scanEscape false ⟨true, 0⟩ e = .ok (some ⟨false, 0⟩) := by
      unfold scanEscape
      rw [if_pos rfl, if_pos he]
    rw [heq, List.cons_append, List.cons_append, List.nil_append]
    simp only [scanQuoted, hopen, hclose]
    change Except.map _ (Except.map _ (scanQuoted Escape.start more)) = _
    cases scanQuoted Escape.start more with
    | error msg => rfl
    | ok split => rfl
  · have hplain : scanEscape false Escape.start c = .ok none := by
      unfold scanEscape
      rw [if_neg Bool.noConfusion, if_neg (fun h => h rfl),
        if_neg hbackslash]
    rw [heq, List.cons_append, List.nil_append]
    simp only [scanQuoted, hplain, if_neg hline, if_neg hquote]
    rfl

theorem scanQuoted_escapeString (s rest : Bytes) :
    scanQuoted Escape.start (escapeString s ++ quote :: rest) =
      .ok (escapeString s ++ [quote], rest) := by
  induction s with
  | nil => rfl
  | cons c s ih =>
      have hsplit : escapeString (c :: s) = escapeChar c ++ escapeString s :=
        List.flatMap_cons
      rw [hsplit, List.append_assoc, scanQuoted_escapeChar, ih,
        List.append_assoc]
      rfl

theorem quoted_chars (s : CString) (rest : Bytes) :
    (quoted s).chars ++ rest = quote :: (escapeString s.chars ++ quote :: rest) := by
  show quote :: (escapeString s.chars ++ [quote]) ++ rest = _
  rw [List.cons_append, List.append_assoc]
  rfl

theorem escapeChar_head (c : UInt8) (more : Bytes) :
    (escapeChar c ++ more).head? ≠ some quote := by
  rcases escapeChar_cases c with ⟨e, heq, _⟩ | ⟨heq, hne, _⟩
  · rw [heq]
    exact fun h => absurd (Option.some.inj h) (by decide)
  · rw [heq]
    exact fun h => hne (Option.some.inj h)

/-- A string in quotes does not begin with three of them. -/
theorem quoted_thrice (s : CString) {rest : Bytes}
    (h : rest.head? ≠ some quote) :
    ¬ (((quoted s).chars ++ rest)[1]? = some quote ∧
      ((quoted s).chars ++ rest)[2]? = some quote) := by
  rw [quoted_chars, List.getElem?_cons_succ, List.getElem?_cons_succ]
  rintro ⟨hfirst, hsecond⟩
  cases hs : s.chars with
  | nil =>
      rw [hs] at hsecond
      change rest[0]? = some quote at hsecond
      rw [← List.head?_eq_getElem?] at hsecond
      exact h hsecond
  | cons d more =>
      have hhead := escapeChar_head d
        (escapeString more ++ quote :: rest)
      rw [hs, ← List.head?_eq_getElem?] at hfirst
      rw [← List.append_assoc] at hhead
      exact hhead hfirst

theorem isPrefixOf_triple_eq_false {mark : UInt8} {text : Bytes}
    (h : ¬ (text[1]? = some mark ∧ text[2]? = some mark)) :
    (triple mark).isPrefixOf text = false := by
  rw [Bool.eq_false_iff]
  intro hprefix
  rcases List.isPrefixOf_iff_prefix.mp hprefix with ⟨more, rfl⟩
  exact h ⟨rfl, rfl⟩

theorem isToken_quoted (dot : Bool) (s : CString) :
    IsToken dot (quoted s).chars := by
  refine ⟨⟨quote, _, rfl, rfl, by decide, by decide, ?_⟩, ?_⟩
  · rintro ⟨_, h⟩
    exact absurd h (by decide)
  · intro c rest hc
    have hne := (@punctuation_ne dot _ hc).right.right.right.left
    have htriple := isPrefixOf_triple_eq_false (@quoted_thrice s
      (c :: rest) (fun h => hne (Option.some.inj h)))
    rw [quoted_chars] at htriple
    unfold scanText
    rw [quoted_chars, htriple, not_isPrefixOf_triple (by decide),
      if_neg Bool.noConfusion, if_neg Bool.noConfusion, List.head?_cons,
      if_neg (by decide), if_pos rfl, List.tail_cons, scanQuoted_escapeString]
    rfl

theorem normalizeKeyString_escape (c : UInt8) (more : Bytes) :
    normalizeKeyString .plain (escapeChar c ++ more) =
      (normalizeKeyString .plain more).map (fun dst => c :: dst) := by
  rcases escapeChar_cases c with
    ⟨e, heq, hescaped, _, _, _, hu, hU⟩ | ⟨heq, _, hbackslash, _⟩
  · rw [heq]
    simp only [List.cons_append, List.nil_append, normalizeKeyString,
      ↓reduceIte, if_neg hu, if_neg hU, hescaped]
  · rw [heq]
    simp only [List.cons_append, List.nil_append, normalizeKeyString,
      if_neg hbackslash]

theorem normalizeKeyString_escapeString (s : Bytes) :
    normalizeKeyString .plain (escapeString s) = .ok s := by
  induction s with
  | nil => rfl
  | cons c s ih =>
      show normalizeKeyString .plain (escapeChar c ++ escapeString s) = _
      rw [normalizeKeyString_escape, ih]
      rfl

theorem normalizeString_escape (c : UInt8) (more : Bytes) :
    normalizeString .plain (escapeChar c ++ more) =
      (normalizeString .plain more).map (fun dst => c :: dst) := by
  rcases escapeChar_cases c with
    ⟨e, heq, hescaped, _, hline, hreturn, hu, hU⟩ | ⟨heq, _, hbackslash, _⟩
  · have hending : ¬ (e = 10 ∨ (e = 13 ∧ more.head? = some 10)) := by
      rintro (h | h)
      · exact hline h
      · exact hreturn h.left
    rw [heq]
    simp only [List.cons_append, List.nil_append, normalizeString,
      ↓reduceIte, if_neg hu, if_neg hU, hescaped]
    exact if_neg hending
  · rw [heq]
    simp only [List.cons_append, List.nil_append, normalizeString,
      if_neg hbackslash]

theorem normalizeString_escapeString (s : Bytes) :
    normalizeString .plain (escapeString s) = some s := by
  induction s with
  | nil => rfl
  | cons c s ih =>
      show normalizeString .plain (escapeChar c ++ escapeString s) = _
      rw [normalizeString_escape, ih]
      rfl

theorem quoted_body (s : CString) :
    ((quoted s).chars.drop 1).take ((quoted s).chars.length - 2) =
      escapeString s.chars := by
  show (escapeString s.chars ++ [quote]).take
    ((quote :: (escapeString s.chars ++ [quote])).length - 2) = _
  rw [List.length_cons, List.length_append]
  exact List.take_left

/-- A string that is written is read back. -/
theorem tomlRtos_quoted (s : CString) :
    tomlRtos (quoted s) = .read (.string s) := by
  have htriple : (List.replicate 3 quote).isPrefixOf (quoted s).chars =
      false := by
    have h := isPrefixOf_triple_eq_false (@quoted_thrice s [] nofun)
    rw [List.append_nil] at h
    exact h
  have hsingle : betweenSingle quote (quoted s).chars =
      some (escapeString s.chars) := by
    unfold betweenSingle
    rw [quoted_body, if_pos]
    refine ⟨?_, ?_⟩
    · show 2 <= (quote :: (escapeString s.chars ++ [quote])).length
      rw [List.length_cons, List.length_append, List.length_singleton]
      omega
    · show (quote :: (escapeString s.chars ++ [quote])).getLast? = _
      rw [← List.cons_append, List.getLast?_concat]
  have hhead : (quoted s).chars.head? = some quote := rfl
  unfold tomlRtos
  rw [hhead, if_neg (by decide), if_pos rfl, htriple,
    if_neg Bool.noConfusion, hsingle, Option.bind_some,
    normalizeString_escapeString]
  exact congrArg (fun s => Reading.read (CharPtr.string s))
    (CString.ofBytes_chars s)

end Quoted

/-!
## Keys
-/

section Keys

variable {key : CString}

theorem isToken_renderKey (dot : Bool) (key : CString) :
    IsToken dot (renderKey key).chars := by
  unfold renderKey
  split
  · rename_i hbare
    apply isToken_bare hbare.left
    rw [List.all_eq_true]
    intro c hc
    exact isBare_of_isBareKey (List.all_eq_true.mp hbare.right c hc)
  · exact isToken_quoted dot key

/-- A key that is written is read back. -/
theorem normalizeKey_renderKey {t : Token} {c : UInt8} {rest : Bytes}
    (ht : t.Is .string (renderKey key).chars (c :: rest))
    (hc : punctuation c ≠ none) (hline : lineFeed ∉ key.chars) :
    normalizeKey t = .ok key := by
  have hne := (@punctuation_ne false _ hc).right.right.right.left
  unfold renderKey at ht
  split at ht
  · rename_i hbare
    have hap : t.text.head? ≠ some apostrophe ∧ t.text.head? ≠ some quote := by
      rw [ht.text]
      cases hchars : key.chars with
      | nil => exact absurd hchars hbare.left
      | cons d more =>
          rw [hchars] at hbare
          have hd := List.all_eq_true.mp hbare.right d List.mem_cons_self
          have hbad := (isBare_ne (@isBare_of_isBareKey false _ hd))
          exact ⟨fun h => hbad.right.right.right.right.right (Option.some.inj h),
            fun h => hbad.right.right.right.right.left (Option.some.inj h)⟩
    unfold normalizeKey
    rw [if_neg hap.left, if_neg hap.right, ht.text, if_pos hbare.right,
      CString.ofBytes_chars]
  · have hbody : keyBody t quote = escapeString key.chars := by
      unfold keyBody
      dsimp only
      rw [ht.text, ht.rest, if_neg (@quoted_thrice key (c :: rest)
        (fun h => hne (Option.some.inj h))), quoted_body]
    have hhead : t.text.head? = some quote := by
      rw [ht.text]
      rfl
    unfold normalizeKey
    rw [hhead, if_neg (by decide), if_pos rfl, hbody,
      normalizeKeyString_escapeString]
    dsimp only
    rw [CString.ofBytes_chars]
    unfold oneLine
    rw [if_neg hline]

end Keys

end TomlParser

end Stns
