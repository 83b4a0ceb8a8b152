import AdminPanel.Proofs.Json.Numeral
import AdminPanel.Proofs.Json.Quoted

/-! # The lexer against the grammar

The lexer finds the tokens that a text spells (`tokens?_sound`), and it finds them whenever a number
among them has a mark of punctuation or nothing behind it (`tokens?_complete`). -/
namespace AdminPanel.Json

/-! ## Tokens -/

theorem readToken?_sound {cs rest : List Char} {token : Token}
    (h : readToken? cs = some (token, rest)) :
    ∃ first, TokenSpelling token first ∧ cs = first ++ rest := by
  unfold readToken? at h
  split at h
  case h_10 =>
    obtain ⟨⟨chars, last⟩, hr, he⟩ := Option.map_eq_some_iff.mp h
    simp only [Prod.mk.injEq] at he
    obtain ⟨rfl, rfl⟩ := he
    obtain ⟨body, hb, rfl⟩ := readString?_sound hr
    exact ⟨_, .string hb, by simp⟩
  case h_11 =>
    obtain ⟨⟨chars, last⟩, hr, he⟩ := Option.map_eq_some_iff.mp h
    simp only [Prod.mk.injEq] at he
    obtain ⟨rfl, rfl⟩ := he
    obtain ⟨hn, rfl⟩ := readNumber?_sound hr
    exact ⟨chars, .number hn, rfl⟩
  all_goals
    simp only [Option.some.injEq, Prod.mk.injEq] at h
    obtain ⟨rfl, rfl⟩ := h
    exact ⟨_, by constructor, rfl⟩

theorem readToken?_number {cs rest : List Char} (h : IsNumber cs) (hr : EndsNumber rest) :
    readToken? (cs ++ rest) = some (.number (String.ofList cs), rest) := by
  obtain ⟨c, tail, he, hc⟩ := h.head
  have hn := readNumber?_append h hr
  have hd : ∀ d, d.isDigit = false → d ≠ '-' → c ≠ d := by
    rintro d h1 h2 rfl
    rcases hc with hc | hc
    · rw [h1] at hc; cases hc
    · exact h2 hc
  unfold readToken?
  split
  case h_11 => rw [hn]; rfl
  all_goals
    rename_i hm
    rw [he] at hm
    injection hm with hm _
    exact absurd hm (hd _ rfl (by decide))

/-- A spelled token is read back, if a number among them does not run into what follows. -/
theorem readToken?_append {token : Token} {first rest : List Char}
    (h : TokenSpelling token first) (hr : (∃ literal, token = .number literal) → EndsNumber rest) :
    readToken? (first ++ rest) = some (token, rest) := by
  cases h with
  | number hn => exact readToken?_number hn (hr ⟨_, rfl⟩)
  | string hb => simp [readToken?, readString?_append hb]
  | nullWord => rfl
  | trueWord => rfl
  | falseWord => rfl
  | openBracket => rfl
  | closeBracket => rfl
  | openBrace => rfl
  | closeBrace => rfl
  | comma => rfl
  | colon => rfl

/-- A spelled token starts with something other than white space. -/
theorem TokenSpelling.head {token : Token} {first : List Char} (h : TokenSpelling token first) :
    ∃ c tail, first = c :: tail ∧ isSpace c = false := by
  cases h with
  | number hn =>
    obtain ⟨c, tail, rfl, hc⟩ := hn.head
    refine ⟨c, tail, rfl, ?_⟩
    rcases hc with hc | rfl
    · simp only [isSpace, Bool.or_eq_false_iff, beq_eq_false_iff_ne]
      refine ⟨⟨⟨?_, ?_⟩, ?_⟩, ?_⟩ <;> rintro rfl <;> exact absurd hc (by decide)
    · rfl
  | string hb => exact ⟨'"', _, rfl, rfl⟩
  | nullWord => exact ⟨'n', _, rfl, rfl⟩
  | trueWord => exact ⟨'t', _, rfl, rfl⟩
  | falseWord => exact ⟨'f', _, rfl, rfl⟩
  | openBracket => exact ⟨'[', _, rfl, rfl⟩
  | closeBracket => exact ⟨']', _, rfl, rfl⟩
  | openBrace => exact ⟨'{', _, rfl, rfl⟩
  | closeBrace => exact ⟨'}', _, rfl, rfl⟩
  | comma => exact ⟨',', _, rfl, rfl⟩
  | colon => exact ⟨':', _, rfl, rfl⟩

/-! ## White space -/

theorem Spells.space_cons {tokens : List Token} {c : Char} {cs : List Char} (hc : isSpace c = true)
    (h : Spells tokens cs) : Spells tokens (c :: cs) := by
  cases h with
  | nil hs => exact .nil (by simpa [hc] using hs)
  | @cons token tokens space first rest hs ht hr =>
    exact @Spells.cons token tokens (c :: space) first rest (by simpa [hc] using hs) ht hr

theorem tokens?_space_append {space : List Char} (h : ∀ c ∈ space, isSpace c = true)
    (cs : List Char) : tokens? (space ++ cs) = tokens? cs := by
  induction space with
  | nil => rfl
  | cons c space ih =>
    have hc := h c (by simp)
    rw [List.cons_append, tokens?.eq_def]
    simp only [hc, if_true]
    exact ih fun d hd => h d (by simp [hd])

theorem tokens?_sound {cs : List Char} {tokens : List Token} (h : tokens? cs = some tokens) :
    Spells tokens cs := by
  generalize hn : cs.length = n
  induction n using Nat.strongRecOn generalizing cs tokens with
  | ind n ih =>
    rw [tokens?.eq_def] at h
    split at h
    · simp only [Option.some.injEq] at h
      subst h
      exact .nil (by simp)
    · split at h
      · rename_i c rest hc
        exact (ih _ (by simp [← hn]) h rfl).space_cons hc
      · split at h
        · cases h
        · rename_i token more ht
          obtain ⟨tail, hr, rfl⟩ := Option.map_eq_some_iff.mp h
          obtain ⟨first, hf, he⟩ := readToken?_sound ht
          have hs := ih _ (hn ▸ readToken?_length ht) hr rfl
          rw [he]
          exact .next hf hs

/-! ## Numbers among the tokens

Two numbers side by side could be spelled as one. In the tokens of a value this cannot happen, for
a number is the last one or has a mark of punctuation behind it. -/

def Token.isMark : Token → Bool
  | .openBracket | .closeBracket | .openBrace | .closeBrace | .comma | .colon => true
  | _ => false

/-- Tokens that are none, or start with a mark. -/
def MarkFirst (tokens : List Token) : Prop := ∀ token ∈ tokens.head?, token.isMark = true

/-- Each number is followed by a mark or by nothing. -/
def Separated : List Token → Prop
  | [] => True
  | token :: tokens => ((∃ literal, token = .number literal) → MarkFirst tokens) ∧ Separated tokens

theorem Spells.endsNumber {tokens : List Token} {cs : List Char} (h : Spells tokens cs)
    (hm : MarkFirst tokens) : EndsNumber cs := by
  have hspace : ∀ c, isSpace c = true → c.isDigit = false ∧ c ≠ '.' ∧ c ≠ 'e' ∧ c ≠ 'E' := by
    intro c hc
    simp only [isSpace, Bool.or_eq_true, beq_iff_eq] at hc
    rcases hc with ((rfl | rfl) | rfl) | rfl <;> decide
  cases h with
  | nil hs =>
    rintro c tail rfl
    exact hspace c (hs c (by simp))
  | @cons token tokens space first rest hs ht hr =>
    intro c tail he
    cases space with
    | cons d space =>
      injection he with he _
      exact he ▸ hspace d (hs d (by simp))
    | nil =>
      have hm := hm token (by simp)
      cases ht with
      | openBracket | closeBracket | openBrace | closeBrace | comma | colon =>
        injection he with he _
        subst he
        decide
      | nullWord | trueWord | falseWord | number _ | string _ => cases hm

/-- Separated tokens are found in every text that spells them. -/
theorem tokens?_complete {cs : List Char} {tokens : List Token} (h : Spells tokens cs)
    (hsep : Separated tokens) : tokens? cs = some tokens := by
  induction h with
  | @nil space hs =>
    have he := tokens?_space_append hs []
    rw [List.append_nil] at he
    rw [he, tokens?.eq_def]
  | @cons token tokens space first rest hs ht hr ih =>
    obtain ⟨hmark, hsep⟩ := hsep
    have hread := readToken?_append ht fun hn => hr.endsNumber (hmark hn)
    obtain ⟨c, tail, rfl, hc⟩ := ht.head
    rw [tokens?_space_append hs, List.cons_append, tokens?.eq_def]
    simp only [hc, Bool.false_eq_true, if_false]
    rw [List.cons_append] at hread
    split
    · rename_i hnone
      rw [hread] at hnone
      cases hnone
    · rename_i token' more hsome
      rw [hread] at hsome
      simp only [Option.some.injEq, Prod.mk.injEq] at hsome
      obtain ⟨rfl, rfl⟩ := hsome
      rw [ih hsep]
      rfl

end AdminPanel.Json
