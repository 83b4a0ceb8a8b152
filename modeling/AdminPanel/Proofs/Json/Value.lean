import AdminPanel.Json.Parser
import AdminPanel.Proofs.Json.Lexer

/-! # The parser against the grammar

On tokens the format is canonical: the parser takes a value off the front of a list exactly when
the list starts with the tokens of that value. With the lexer below it, reading a text gives a
value exactly when the text writes it (`ofText?_eq_some_iff`), so a text writes at most one. -/
namespace AdminPanel.Json

theorem elementTokens_cons (value : Json) {values : List Json} (h : values ≠ []) :
    elementTokens (value :: values) = value.tokens ++ .comma :: elementTokens values := by
  cases values with
  | nil => exact absurd rfl h
  | cons next values => rfl

theorem memberTokens_cons (name : String) (value : Json) {members : List (String × Json)}
    (h : members ≠ []) :
    memberTokens ((name, value) :: members) =
      .string name :: .colon :: (value.tokens ++ .comma :: memberTokens members) := by
  cases members with
  | nil => exact absurd rfl h
  | cons next members => rfl

/-! ## One step of the parser -/

theorem readValue?_array (fuel : Nat) {ts : List Token} (h : ∀ rest, ts ≠ .closeBracket :: rest) :
    readValue? (fuel + 1) (.openBracket :: ts) =
      (readElements? fuel ts).map fun read => (.array read.1, read.2) := by
  rw [readValue?]
  exact h

theorem readValue?_object (fuel : Nat) {ts : List Token} (h : ∀ rest, ts ≠ .closeBrace :: rest) :
    readValue? (fuel + 1) (.openBrace :: ts) =
      (readMembers? fuel ts).map fun read => (.object read.1, read.2) := by
  rw [readValue?]
  exact h

/-! ## What is read was written

By induction on the fuel. The three readers call each other with less of it, so each is shown
right on the assumption that all three are for the fuel below. -/

/-- With this fuel, each reader only takes off the tokens of what it returns. -/
structure ReadsBack (fuel : Nat) : Prop where
  value : ∀ {ts rest value}, readValue? fuel ts = some (value, rest) → ts = value.tokens ++ rest
  elements : ∀ {ts rest values}, readElements? fuel ts = some (values, rest) →
    values ≠ [] ∧ ts = elementTokens values ++ .closeBracket :: rest
  members : ∀ {ts rest members}, readMembers? fuel ts = some (members, rest) →
    members ≠ [] ∧ ts = memberTokens members ++ .closeBrace :: rest

theorem readValue?_sound {fuel : Nat} (ih : ReadsBack fuel) {ts rest : List Token} {value : Json}
    (h : readValue? (fuel + 1) ts = some (value, rest)) : ts = value.tokens ++ rest := by
  cases ts with
  | nil => simp [readValue?] at h
  | cons token ts =>
    cases token with
    | null | bool _ | number _ | string _ =>
      simp only [readValue?, Option.some.injEq, Prod.mk.injEq] at h
      obtain ⟨rfl, rfl⟩ := h
      rfl
    | openBracket =>
      by_cases hc : ∃ tail, ts = .closeBracket :: tail
      · obtain ⟨tail, rfl⟩ := hc
        simp only [readValue?, Option.some.injEq, Prod.mk.injEq] at h
        obtain ⟨rfl, rfl⟩ := h
        rfl
      · rw [readValue?_array fuel fun tail he => hc ⟨tail, he⟩] at h
        obtain ⟨⟨values, last⟩, hr, he⟩ := Option.map_eq_some_iff.mp h
        simp only [Prod.mk.injEq] at he
        obtain ⟨rfl, rfl⟩ := he
        rw [(ih.elements hr).2]
        simp [tokens]
    | openBrace =>
      by_cases hc : ∃ tail, ts = .closeBrace :: tail
      · obtain ⟨tail, rfl⟩ := hc
        simp only [readValue?, Option.some.injEq, Prod.mk.injEq] at h
        obtain ⟨rfl, rfl⟩ := h
        rfl
      · rw [readValue?_object fuel fun tail he => hc ⟨tail, he⟩] at h
        obtain ⟨⟨members, last⟩, hr, he⟩ := Option.map_eq_some_iff.mp h
        simp only [Prod.mk.injEq] at he
        obtain ⟨rfl, rfl⟩ := he
        rw [(ih.members hr).2]
        simp [tokens]
    | closeBracket | closeBrace | comma | colon => simp [readValue?] at h

theorem readElements?_sound {fuel : Nat} (ih : ReadsBack fuel) {ts rest : List Token}
    {values : List Json} (h : readElements? (fuel + 1) ts = some (values, rest)) :
    values ≠ [] ∧ ts = elementTokens values ++ .closeBracket :: rest := by
  rw [readElements?] at h
  split at h
  · rename_i value last hv
    simp only [Option.some.injEq, Prod.mk.injEq] at h
    obtain ⟨rfl, rfl⟩ := h
    exact ⟨List.cons_ne_nil _ _, ih.value hv⟩
  · rename_i value last hv
    obtain ⟨⟨more, last⟩, hr, he⟩ := Option.map_eq_some_iff.mp h
    simp only [Prod.mk.injEq] at he
    obtain ⟨rfl, rfl⟩ := he
    obtain ⟨hne, rfl⟩ := ih.elements hr
    refine ⟨List.cons_ne_nil _ _, ?_⟩
    rw [ih.value hv, elementTokens_cons _ hne]
    simp
  · cases h

theorem readMembers?_sound {fuel : Nat} (ih : ReadsBack fuel) {ts rest : List Token}
    {members : List (String × Json)} (h : readMembers? (fuel + 1) ts = some (members, rest)) :
    members ≠ [] ∧ ts = memberTokens members ++ .closeBrace :: rest := by
  unfold readMembers? at h
  split at h
  · cases h
  · rename_i name tail hf
    obtain rfl := Nat.succ.inj hf
    split at h
    · rename_i value last hv
      simp only [Option.some.injEq, Prod.mk.injEq] at h
      obtain ⟨rfl, rfl⟩ := h
      refine ⟨List.cons_ne_nil _ _, ?_⟩
      rw [ih.value hv]
      rfl
    · rename_i value last hv
      obtain ⟨⟨more, last⟩, hr, he⟩ := Option.map_eq_some_iff.mp h
      simp only [Prod.mk.injEq] at he
      obtain ⟨rfl, rfl⟩ := he
      obtain ⟨hne, rfl⟩ := ih.members hr
      refine ⟨List.cons_ne_nil _ _, ?_⟩
      rw [ih.value hv, memberTokens_cons _ _ hne]
      simp
    · cases h
  · cases h

theorem readsBack (fuel : Nat) : ReadsBack fuel := by
  induction fuel with
  | zero =>
    refine ⟨fun h => ?_, fun h => ?_, fun h => ?_⟩
    · simp [readValue?] at h
    · simp [readElements?] at h
    · simp [readMembers?] at h
  | succ fuel ih => exact ⟨readValue?_sound ih, readElements?_sound ih, readMembers?_sound ih⟩

/-! ## What was written is read

The fuel has to be twice the number of tokens: each token costs at most one call for a value and
one for the list around it. -/

/-- This fuel is enough for each reader to take off what is written with half as many tokens. -/
structure ReadsAll (fuel : Nat) : Prop where
  value : ∀ (value : Json) (rest : List Token), 2 * value.tokens.length ≤ fuel →
    readValue? fuel (value.tokens ++ rest) = some (value, rest)
  elements : ∀ (values : List Json) (rest : List Token), values ≠ [] →
    2 * (elementTokens values).length < fuel →
    readElements? fuel (elementTokens values ++ .closeBracket :: rest) = some (values, rest)
  members : ∀ (members : List (String × Json)) (rest : List Token), members ≠ [] →
    2 * (memberTokens members).length < fuel →
    readMembers? fuel (memberTokens members ++ .closeBrace :: rest) = some (members, rest)

theorem tokens_head (value : Json) (rest tail : List Token) :
    value.tokens ++ rest ≠ .closeBracket :: tail := by
  cases value <;> simp [tokens]

theorem elementTokens_head {values : List Json} (h : values ≠ []) (rest tail : List Token) :
    elementTokens values ++ rest ≠ .closeBracket :: tail := by
  match values, h with
  | [value], _ => exact tokens_head value rest tail
  | value :: next :: values, _ =>
    rw [elementTokens, List.append_assoc]
    exact tokens_head value _ tail

theorem memberTokens_head {members : List (String × Json)} (h : members ≠ [])
    (rest tail : List Token) : memberTokens members ++ rest ≠ .closeBrace :: tail := by
  match members, h with
  | [(name, value)], _ => simp [memberTokens]
  | (name, value) :: next :: members, _ => simp [memberTokens]

theorem tokens_length_pos (value : Json) : 0 < value.tokens.length := by
  cases value <;> simp [tokens]

theorem readValue?_complete {fuel : Nat} (ih : ReadsAll fuel) (value : Json) (rest : List Token)
    (h : 2 * value.tokens.length ≤ fuel + 1) :
    readValue? (fuel + 1) (value.tokens ++ rest) = some (value, rest) := by
  cases value with
  | null | bool _ | number _ | string _ => rfl
  | array values =>
    by_cases hv : values = []
    · subst hv
      rfl
    · simp only [tokens, List.length_cons, List.length_append, List.length_nil] at h
      have hr := ih.elements values rest hv (by omega)
      simp only [tokens, List.cons_append, List.append_assoc, List.nil_append]
      rw [readValue?_array fuel (elementTokens_head hv _), hr]
      rfl
  | object members =>
    by_cases hm : members = []
    · subst hm
      rfl
    · simp only [tokens, List.length_cons, List.length_append, List.length_nil] at h
      have hr := ih.members members rest hm (by omega)
      simp only [tokens, List.cons_append, List.append_assoc, List.nil_append]
      rw [readValue?_object fuel (memberTokens_head hm _), hr]
      rfl

theorem readElements?_complete {fuel : Nat} (ih : ReadsAll fuel) (values : List Json)
    (rest : List Token) (hne : values ≠ []) (h : 2 * (elementTokens values).length < fuel + 1) :
    readElements? (fuel + 1) (elementTokens values ++ .closeBracket :: rest) =
      some (values, rest) := by
  match values, hne with
  | [value], _ =>
    rw [elementTokens] at h ⊢
    rw [readElements?, ih.value value _ (by omega)]
  | value :: next :: values, _ =>
    simp only [elementTokens_cons value (List.cons_ne_nil next values), List.length_append,
      List.length_cons] at h ⊢
    have hv := ih.value value
      (.comma :: (elementTokens (next :: values) ++ .closeBracket :: rest)) (by omega)
    have hr := ih.elements (next :: values) rest (List.cons_ne_nil _ _) (by omega)
    rw [List.append_assoc, List.cons_append, readElements?, hv]
    simp only [hr, Option.map_some]

theorem readMembers?_complete {fuel : Nat} (ih : ReadsAll fuel) (members : List (String × Json))
    (rest : List Token) (hne : members ≠ []) (h : 2 * (memberTokens members).length < fuel + 1) :
    readMembers? (fuel + 1) (memberTokens members ++ .closeBrace :: rest) =
      some (members, rest) := by
  match members, hne with
  | [(name, value)], _ =>
    simp only [memberTokens, List.length_cons] at h
    have hv := ih.value value (.closeBrace :: rest) (by omega)
    simp only [memberTokens, List.cons_append, readMembers?, hv]
  | (name, value) :: next :: members, _ =>
    simp only [memberTokens_cons name value (List.cons_ne_nil next members), List.length_append,
      List.length_cons] at h ⊢
    have hv := ih.value value
      (.comma :: (memberTokens (next :: members) ++ .closeBrace :: rest)) (by omega)
    have hr := ih.members (next :: members) rest (List.cons_ne_nil _ _) (by omega)
    simp only [List.cons_append, List.append_assoc, readMembers?, hv, hr, Option.map_some]

theorem readsAll (fuel : Nat) : ReadsAll fuel := by
  induction fuel with
  | zero =>
    refine ⟨fun value rest h => ?_, fun _ _ _ h => absurd h (Nat.not_lt_zero _),
      fun _ _ _ h => absurd h (Nat.not_lt_zero _)⟩
    have := tokens_length_pos value
    omega
  | succ fuel ih =>
    exact ⟨readValue?_complete ih, readElements?_complete ih, readMembers?_complete ih⟩

/-- **On tokens the format is canonical.** -/
theorem ofTokens?_eq_some_iff {ts : List Token} {value : Json} :
    ofTokens? ts = some value ↔ ts = value.tokens := by
  unfold ofTokens?
  constructor
  · intro h
    split at h
    · rename_i read hr
      cases h
      simpa using (readsBack _).value hr
    · cases h
  · rintro rfl
    have hr := (readsAll (2 * value.tokens.length + 1)).value value [] (by omega)
    rw [List.append_nil] at hr
    rw [hr]

/-! ## Texts -/

mutual

/-- A value keeps separated tokens separated, in front of a mark or at the end. -/
theorem separated_tokens : ∀ (value : Json) (rest : List Token), MarkFirst rest → Separated rest →
    Separated (value.tokens ++ rest)
  | .null, _, hm, hs => ⟨fun _ => hm, hs⟩
  | .bool _, _, hm, hs => ⟨fun _ => hm, hs⟩
  | .number _, _, hm, hs => ⟨fun _ => hm, hs⟩
  | .string _, _, hm, hs => ⟨fun _ => hm, hs⟩
  | .array values, rest, hm, hs => by
    have hv := separated_elementTokens values (.closeBracket :: rest)
      (by simp [MarkFirst, Token.isMark]) ⟨fun _ => hm, hs⟩
    simpa [tokens, Separated] using hv
  | .object members, rest, hm, hs => by
    have hv := separated_memberTokens members (.closeBrace :: rest)
      (by simp [MarkFirst, Token.isMark]) ⟨fun _ => hm, hs⟩
    simpa [tokens, Separated] using hv

theorem separated_elementTokens : ∀ (values : List Json) (rest : List Token), MarkFirst rest →
    Separated rest → Separated (elementTokens values ++ rest)
  | [], _, _, hs => hs
  | [value], rest, hm, hs => separated_tokens value rest hm hs
  | value :: next :: values, rest, hm, hs => by
    have hr := separated_elementTokens (next :: values) rest hm hs
    have hv := separated_tokens value (.comma :: (elementTokens (next :: values) ++ rest))
      (by simp [MarkFirst, Token.isMark]) ⟨by simp, hr⟩
    simpa [elementTokens] using hv

theorem separated_memberTokens : ∀ (members : List (String × Json)) (rest : List Token),
    MarkFirst rest → Separated rest → Separated (memberTokens members ++ rest)
  | [], _, _, hs => hs
  | [(name, value)], rest, hm, hs => by
    have hv := separated_tokens value rest hm hs
    simpa [memberTokens, Separated] using hv
  | (name, value) :: next :: members, rest, hm, hs => by
    have hr := separated_memberTokens (next :: members) rest hm hs
    have hv := separated_tokens value (.comma :: (memberTokens (next :: members) ++ rest))
      (by simp [MarkFirst, Token.isMark]) ⟨by simp, hr⟩
    simpa [memberTokens, Separated] using hv

end

/-- **Reading against the grammar.** A text is read as a value exactly when it writes that value. -/
theorem ofText?_eq_some_iff {text : String} {value : Json} :
    ofText? text = some value ↔ Writes text value := by
  unfold ofText? Writes
  constructor
  · intro h
    obtain ⟨ts, ht, hv⟩ := Option.bind_eq_some_iff.mp h
    rw [← ofTokens?_eq_some_iff.mp hv]
    exact tokens?_sound ht
  · intro h
    have hs := separated_tokens value [] (by simp [MarkFirst]) trivial
    rw [List.append_nil] at hs
    rw [tokens?_complete h hs, Option.bind_some]
    exact ofTokens?_eq_some_iff.mpr rfl

theorem Writes.unique {text : String} {a b : Json} (ha : Writes text a) (hb : Writes text b) :
    a = b := by
  rw [← ofText?_eq_some_iff] at ha hb
  exact Option.some.inj (ha.symm.trans hb)

theorem ofText?_quoted (s : String) : ofText? (quoted s) = some (.string s) := by
  rw [ofText?_eq_some_iff]
  have h := Spells.next (tokenSpelling_quoted s) .done
  rwa [List.append_nil] at h

/-! ## Values that can be written

A value is kept from being written only by its tokens, one by one: the literal of a number may be
none of the format. -/

theorem exists_spells_iff {tokens : List Token} :
    (∃ cs, Spells tokens cs) ↔ ∀ token ∈ tokens, ∃ first, TokenSpelling token first := by
  induction tokens with
  | nil => exact ⟨fun _ _ ht => absurd ht List.not_mem_nil, fun _ => ⟨[], .done⟩⟩
  | cons token tokens ih =>
    rw [List.forall_mem_cons, ← ih]
    constructor
    · rintro ⟨_, hs⟩
      cases hs with
      | cons _ ht hr => exact ⟨⟨_, ht⟩, ⟨_, hr⟩⟩
    · rintro ⟨⟨first, ht⟩, ⟨rest, hr⟩⟩
      exact ⟨_, .next ht hr⟩

theorem mem_elementTokens {values : List Json} {value : Json} {token : Token} (hv : value ∈ values)
    (ht : token ∈ value.tokens) : token ∈ elementTokens values := by
  induction values with
  | nil => cases hv
  | cons first values ih =>
    by_cases hn : values = []
    · subst hn
      obtain rfl := List.mem_singleton.mp hv
      exact ht
    · rw [elementTokens_cons first hn, List.mem_append]
      rcases List.mem_cons.mp hv with rfl | hv
      · exact .inl ht
      · exact .inr (List.mem_cons_of_mem _ (ih hv))

/-- What holds of names, colons, commas and the tokens of each value holds of every token. -/
theorem forall_mem_memberTokens {members : List (String × Json)} {p : Token → Prop}
    (hname : ∀ name, p (.string name)) (hcolon : p .colon) (hcomma : p .comma)
    (hvalue : ∀ member ∈ members, ∀ token ∈ member.2.tokens, p token) :
    ∀ token ∈ memberTokens members, p token := by
  induction members with
  | nil => exact fun _ ht => absurd ht List.not_mem_nil
  | cons member members ih =>
    obtain ⟨name, value⟩ := member
    obtain ⟨hfirst, hvalue⟩ := List.forall_mem_cons.mp hvalue
    by_cases hn : members = []
    · subst hn
      simp only [memberTokens, List.forall_mem_cons]
      exact ⟨hname name, hcolon, hfirst⟩
    · simp only [memberTokens_cons name value hn, List.forall_mem_cons, List.forall_mem_append]
      exact ⟨hname name, hcolon, hfirst, hcomma, ih hvalue⟩

/-- Under whatever names, the elements of an array that can be written make up an object that can
be written. -/
theorem exists_writes_object {text : String} {elements : List Json}
    {members : List (String × Json)} (h : Writes text (.array elements))
    (hm : ∀ member ∈ members, member.2 ∈ elements) : ∃ named, Writes named (.object members) := by
  have hspelled := exists_spells_iff.mp ⟨_, h⟩
  have hmembers : ∀ token ∈ memberTokens members, ∃ first, TokenSpelling token first := by
    refine forall_mem_memberTokens (fun name => ⟨_, tokenSpelling_quoted name⟩) ⟨_, .colon⟩
      ⟨_, .comma⟩ fun member hmem token ht => ?_
    have helement := mem_elementTokens (hm member hmem) ht
    exact hspelled token (by simp [tokens, helement])
  have hobject : ∃ cs, Spells (Json.object members).tokens cs := by
    rw [exists_spells_iff, tokens, List.forall_mem_cons, List.forall_mem_append]
    exact ⟨⟨_, .openBrace⟩, hmembers, List.forall_mem_singleton.mpr ⟨_, .closeBrace⟩⟩
  obtain ⟨cs, hcs⟩ := hobject
  refine ⟨String.ofList cs, ?_⟩
  rwa [Writes, String.toList_ofList]

end AdminPanel.Json
