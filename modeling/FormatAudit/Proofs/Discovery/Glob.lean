import FormatAudit.Discovery.Glob
import FormatAudit.Proofs.Discovery.Extension

/-! Matching a component against a name, token by token, and what the pattern of a plain extension
matches. -/
namespace FormatAudit.Glob
variable {ts : List Token} {name e : Text} {c : Char}

theorem orLater_cons (b : Bool) {bs : List Bool} (h : orLater bs ≠ []) :
    orLater (b :: bs) = (b || (orLater bs).headD false) :: orLater bs := by
  rw [orLater]
  split
  · next hnil => exact absurd hnil h
  · next hcons => rw [hcons, List.headD_cons]

theorem orLater_ne_nil {bs : List Bool} (h : bs ≠ []) : orLater bs ≠ [] := by
  match bs with
  | b :: bs =>
    rw [orLater]
    split <;> exact List.cons_ne_nil _ _

theorem matchEnds_of_ne {t : Token} (h : t ≠ .anyRun) (ts : List Token) (name : Text) :
    matchEnds name (t :: ts) =
      List.zipWith (fun c m => t.holds c && m) name (matchEnds name ts).tail ++ [false] := by
  cases t with
  | anyRun => exact absurd rfl h
  | _ => rfl

theorem matchEnds_ne_nil (name : Text) (ts : List Token) : matchEnds name ts ≠ [] := by
  induction ts with
  | nil => simp [matchEnds]
  | cons t ts ih =>
    by_cases ht : t = .anyRun
    · subst ht
      exact orLater_ne_nil ih
    · simp [matchEnds_of_ne ht]

/-- A character in front of a name puts one answer in front of those for its ends. -/
theorem matchEnds_cons (c : Char) (name : Text) (ts : List Token) :
    matchEnds (c :: name) ts = matchTokens ts (c :: name) :: matchEnds name ts := by
  have hrest : ∃ b, matchEnds (c :: name) ts = b :: matchEnds name ts := by
    induction ts with
    | nil => exact ⟨false, rfl⟩
    | cons t ts ih =>
      obtain ⟨b, hb⟩ := ih
      by_cases ht : t = .anyRun
      · subst ht
        rw [matchEnds, hb, orLater_cons b (orLater_ne_nil (matchEnds_ne_nil name ts))]
        exact ⟨_, rfl⟩
      · obtain ⟨b', bs, hbs⟩ := List.exists_cons_of_ne_nil (matchEnds_ne_nil name ts)
        rw [matchEnds_of_ne ht, matchEnds_of_ne ht, hb, List.tail_cons, hbs]
        exact ⟨_, rfl⟩
  obtain ⟨b, hb⟩ := hrest
  rw [matchTokens, hb, List.headD_cons]

theorem matchTokens_nil (name : Text) : matchTokens [] name = name.isEmpty := by
  cases name <;> rfl

theorem matchTokens_char_nil (d : Char) (ts : List Token) :
    matchTokens (.char d :: ts) [] = false :=
  rfl

theorem matchTokens_char_cons (d : Char) (ts : List Token) (c : Char) (name : Text) :
    matchTokens (.char d :: ts) (c :: name) = (decide (c = d) && matchTokens ts name) := by
  obtain ⟨b, bs, hbs⟩ := List.exists_cons_of_ne_nil (matchEnds_ne_nil name ts)
  rw [matchTokens, matchEnds_of_ne (by simp), matchEnds_cons, List.tail_cons, matchTokens, hbs]
  rfl

theorem matchEnds_nil (ts : List Token) : matchEnds [] ts = [matchTokens ts []] := by
  have hone : ∃ b, matchEnds [] ts = [b] := by
    induction ts with
    | nil => exact ⟨true, rfl⟩
    | cons t ts ih =>
      obtain ⟨b, hb⟩ := ih
      by_cases ht : t = .anyRun
      · subst ht
        exact ⟨b, by rw [matchEnds, hb]; rfl⟩
      · exact ⟨false, by rw [matchEnds_of_ne ht, List.zipWith_nil_left]; rfl⟩
  obtain ⟨b, hb⟩ := hone
  rw [matchTokens, hb, List.headD_cons]

theorem matchTokens_anyRun_nil (ts : List Token) :
    matchTokens (.anyRun :: ts) [] = matchTokens ts [] := by
  rw [matchTokens, matchEnds, matchEnds_nil]
  rfl

theorem matchTokens_anyRun_cons (ts : List Token) (c : Char) (name : Text) :
    matchTokens (.anyRun :: ts) (c :: name) =
      (matchTokens ts (c :: name) || matchTokens (.anyRun :: ts) name) := by
  rw [matchTokens, matchEnds, matchEnds_cons,
    orLater_cons _ (orLater_ne_nil (matchEnds_ne_nil name ts))]
  rfl

/-- A star takes any beginning of a name. -/
theorem matchTokens_anyRun :
    matchTokens (.anyRun :: ts) name ↔ ∃ stem rest, name = stem ++ rest ∧ matchTokens ts rest := by
  induction name with
  | nil =>
    rw [matchTokens_anyRun_nil]
    constructor
    · exact fun h => ⟨[], [], rfl, h⟩
    · rintro ⟨stem, rest, heq, h⟩
      rwa [← (List.append_eq_nil_iff.1 heq.symm).2]
  | cons c name ih =>
    rw [matchTokens_anyRun_cons, Bool.or_eq_true, ih]
    constructor
    · rintro (h | ⟨stem, rest, rfl, h⟩)
      · exact ⟨[], c :: name, rfl, h⟩
      · exact ⟨c :: stem, rest, rfl, h⟩
    · rintro ⟨stem, rest, heq, h⟩
      cases stem with
      | nil => exact .inl (heq ▸ h)
      | cons d stem =>
        rw [List.cons_append, List.cons.injEq] at heq
        exact .inr ⟨stem, rest, heq.2, h⟩

theorem matchTokens_chars (t name : Text) : matchTokens (t.map .char) name ↔ name = t := by
  induction t generalizing name with
  | nil => simp [matchTokens_nil]
  | cons d t ih =>
    cases name with
    | nil => simp [matchTokens_char_nil]
    | cons c name => simp [matchTokens_char_cons, ih]

def isLiteral (c : Char) : Bool :=
  c != '*' && c != '?' && c != '['

theorem tokens_of_isLiteral {fuel : Nat} {t : Text} (hfuel : t.length ≤ fuel)
    (h : ∀ c ∈ t, isLiteral c) : tokens fuel t = t.map .char := by
  induction t generalizing fuel with
  | nil => cases fuel <;> rfl
  | cons c t ih =>
    obtain ⟨hc, ht⟩ := List.forall_mem_cons.1 h
    obtain ⟨fuel, rfl⟩ : ∃ n, fuel = n + 1 := ⟨fuel - 1, by simp at hfuel; omega⟩
    simp only [isLiteral, Bool.and_eq_true, bne_iff_ne] at hc
    obtain ⟨⟨hstar, hmark⟩, hbracket⟩ := hc
    rw [tokens, if_neg hstar, if_neg hmark, if_neg hbracket, ih (by simpa using hfuel) ht,
      List.map_cons]

theorem hasTwoStars_of_isLiteral {t : Text} (h : ∀ c ∈ t, isLiteral c) : hasTwoStars t = false := by
  induction t with
  | nil => rfl
  | cons c t ih =>
    obtain ⟨hc, ht⟩ := List.forall_mem_cons.1 h
    have hstar : c ≠ '*' := by
      rintro rfl
      exact absurd hc (by decide)
    rw [hasTwoStars]
    · exact ih ht
    · rintro t' rfl
      exact absurd rfl hstar

def endingTokens (e : Text) : List Token :=
  .anyRun :: .char '.' :: e.map .char

theorem matchTokens_ending :
    matchTokens (endingTokens e) name ↔ ∃ stem, name = stem ++ '.' :: e := by
  have hchars : endingTokens e = .anyRun :: ('.' :: e).map .char := rfl
  simp only [hchars, matchTokens_anyRun, matchTokens_chars]
  simp

theorem component_ending (h : ∀ c ∈ e, isLiteral c) :
    component ('*' :: '.' :: e) = .ok (.name (endingTokens e)) := by
  have hpoint : ∀ c ∈ '.' :: e, isLiteral c := List.forall_mem_cons.2 ⟨rfl, h⟩
  have htokens : tokens ('*' :: '.' :: e).length ('*' :: '.' :: e) = endingTokens e := by
    rw [List.length_cons, tokens, if_pos rfl, tokens_of_isLiteral (Nat.le_refl _) hpoint]
    rfl
  have hstars : hasTwoStars ('*' :: '.' :: e) = false := by
    rw [hasTwoStars, hasTwoStars_of_isLiteral hpoint]
    simp
  have hdeep : '*' :: '.' :: e ≠ "**".toList := by simp
  have hup : '*' :: '.' :: e ≠ "..".toList := by simp
  rw [component, if_neg hdeep, if_neg hup, hstars, htokens]
  simp

theorem ofText_anyFile (hne : e ≠ []) (h : ∀ c ∈ e, isLiteral c) (hslash : '/' ∉ e) :
    ofText (Extension.anyFile ++ e) = .ok ⟨[.deep, .name (endingTokens e)], false⟩ := by
  have hpieces : Text.pieces '/' (Extension.anyFile ++ e) = ["**".toList, '*' :: '.' :: e] := by
    have hname : '/' ∉ '*' :: '.' :: e := by simpa using hslash
    calc Text.pieces '/' ("**".toList ++ '/' :: ('*' :: '.' :: e))
        = "**".toList :: Text.pieces '/' ('*' :: '.' :: e) := Text.pieces_append_sep (by decide) _
      _ = ["**".toList, '*' :: '.' :: e] := by rw [Text.pieces_of_not_mem hname]
  have hparts : Path.partsOf (Extension.anyFile ++ e) = ["**".toList, '*' :: '.' :: e] := by
    rw [Path.partsOf, hpieces]
    simp
  have hlast : (Extension.anyFile ++ e).getLast? ≠ some '/' := by
    rw [List.getLast?_append, List.getLast?_eq_some_getLast hne, Option.some_or, ne_eq,
      Option.some.injEq]
    exact fun hl => hslash (hl ▸ List.getLast_mem hne)
  have hdeep : component "**".toList = .ok .deep := rfl
  rw [ofText, if_neg (by simp [Extension.anyFile]), if_neg (by simp [Extension.anyFile])]
  simp only [hparts, hlast, List.mapM_cons, hdeep, component_ending h]
  rfl

end FormatAudit.Glob
