import AdminPanel.Proofs.Config.Format

/-! # Respelled configurations

A configuration is the same under every spelling of its document: in whatever order the members
stand, with whatever white space around the tokens, and however the characters of names and values
are escaped. This holds for documents that are refused as well, since the check of the names comes
before any look at a value (`ofText_eq_of_perm`). -/
namespace AdminPanel.Config

variable {members members' : List (String × Json)}

/-- Whether all names are known and distinct does not depend on the order, and only if they are is
any value looked up. -/
theorem ofMembers?_eq_of_perm (hp : members.Perm members') :
    Document.ofMembers? members = Document.ofMembers? members' := by
  have hnames := hp.map Prod.fst
  have hcheck : ((members.map Prod.fst).Nodup ∧ ∀ name ∈ members.map Prod.fst, name ∈ memberNames) ↔
      (members'.map Prod.fst).Nodup ∧ ∀ name ∈ members'.map Prod.fst, name ∈ memberNames := by
    rw [hnames.nodup_iff]
    exact and_congr_right fun _ => forall_congr' fun _ => by rw [hnames.mem_iff]
  rw [Document.ofMembers?, Document.ofMembers?]
  by_cases h : (members.map Prod.fst).Nodup ∧ ∀ name ∈ members.map Prod.fst, name ∈ memberNames
  · have hlookup := lookup_eq_of_perm hp h.1
    rw [if_pos h, if_pos (hcheck.mp h), hlookup, hlookup, hlookup, hlookup]
  · rw [if_neg h, if_neg (mt hcheck.mpr h)]

/-- **The spelling of a document is irrelevant.** Two texts that write the same members, in any
order and in any spelling, have the same outcome: the same configuration, or the same error. -/
theorem ofText_eq_of_perm {a b : String} (hp : members.Perm members')
    (ha : Json.Writes a (.object members)) (hb : Json.Writes b (.object members')) :
    ofText a = ofText b := by
  rw [ofText, ofText, Json.ofText?_eq_some_iff.mpr ha, Json.ofText?_eq_some_iff.mpr hb,
    Option.bind_some, Option.bind_some, Document.ofJson?, Document.ofJson?,
    ofMembers?_eq_of_perm hp]

/-! ## Documents in two spellings -/

/-- A letter may stand for itself. -/
theorem charSpelling_of_isAlpha {c : Char} (h : c.isAlpha = true) : Json.CharSpelling c [c] := by
  refine .raw ?_ ?_ ?_
  · intro he
    rw [he] at h
    cases h
  · intro he
    rw [he] at h
    cases h
  · have hcase : c.isUpper = true ∨ c.isLower = true := Bool.or_eq_true_iff.mp h
    have hleast : 65 ≤ c.toNat ∨ 97 ≤ c.toNat :=
      hcase.imp (fun hu => (of_decide_eq_true hu).left)
        fun hl => of_decide_eq_true (Bool.and_eq_true_iff.mp hl).left
    omega

theorem spells_two_members {a x b y : String} {cs ds es fs : List Char}
    (ha : Json.TokenSpelling (.string a) cs) (hx : Json.TokenSpelling (.string x) ds)
    (hb : Json.TokenSpelling (.string b) es) (hy : Json.TokenSpelling (.string y) fs) :
    Json.Spells (Json.tokens (.object [(a, .string x), (b, .string y)]))
      ('{' :: (cs ++ ':' :: (ds ++ ',' :: (es ++ ':' :: (fs ++ ['}']))))) :=
  Json.Spells.next .openBrace <| .next ha <| .next .colon <| .next hx <| .next .comma <|
    .next hb <| .next .colon <| .next hy <| .next .closeBrace .done

/-- A document is accepted in both spellings, or refused in both for the language that it names,
though the members change places and the characters of names and values are escaped in one of the
two. -/
theorem ofText_eq_of_perm_escaped :
    let members : List (String × Json) :=
      [("locale", .string "PL"), ("currency_symbol", .string "zł")]
    let members' : List (String × Json) :=
      [("currency_symbol", .string "zł"), ("locale", .string "PL")]
    let a := "\x7b\"locale\":\"PL\",\"currency_symbol\":\"zł\"\x7d"
    let b := "\x7b\"currency_symbol\":\"z\\u0142\",\"locale\":\"P\\u004c\"\x7d"
    let refused : List (String × Json) :=
      [("locale", .string "é"), ("currency_symbol", .string "😀")]
    let refused' : List (String × Json) :=
      [("currency_symbol", .string "😀"), ("locale", .string "é")]
    let c := "\x7b\"locale\":\"é\",\"currency_symbol\":\"😀\"\x7d"
    let d := " \x7b\n\"currency_symbol\" :\t\"\\uD83d\\uDe00\",\"loc\\u0061le\":\"\\u00E9\"\r\x7d"
    (members.Perm members' ∧ Json.Writes a (.object members) ∧
      Json.Writes b (.object members') ∧ ofText a = ofText b ∧
      ofText b = .ok { Config.default with locale := some .polish, currencySymbol := some "zł" }) ∧
    refused.Perm refused' ∧ Json.Writes c (.object refused) ∧ Json.Writes d (.object refused') ∧
      ofText c = ofText d ∧ ofText d = .error (.unknownLocale "é") := by
  intro members members' a b refused refused' c d
  have hp : members.Perm members' := .swap _ _ _
  have ha : Json.Writes a (.object members) := by
    refine Eq.mp (congrArg (Json.Spells _) ?_) <| spells_two_members
      (Json.tokenSpelling_quoted "locale") (Json.tokenSpelling_quoted "PL")
      (Json.tokenSpelling_quoted "currency_symbol") (Json.tokenSpelling_quoted "zł")
    decide +kernel
  have hstroke : Json.CharSpelling 'ł' "\\u0142".toList :=
    .unit (@Json.UnitSpelling.digits '0' '1' '4' '2' 0 1 4 2 rfl rfl rfl rfl)
  have hL : Json.CharSpelling 'L' "\\u004c".toList :=
    .unit (@Json.UnitSpelling.digits '0' '0' '4' 'c' 0 0 4 12 rfl rfl rfl rfl)
  have hb : Json.Writes b (.object members') := by
    refine Eq.mp (congrArg (Json.Spells _) ?_) <| spells_two_members
      (Json.tokenSpelling_quoted "currency_symbol")
      (.string (.cons (charSpelling_of_isAlpha rfl) (.cons hstroke .nil)))
      (Json.tokenSpelling_quoted "locale")
      (.string (.cons (charSpelling_of_isAlpha rfl) (.cons hL .nil)))
    decide +kernel
  have hq : refused.Perm refused' := .swap _ _ _
  have hc : Json.Writes c (.object refused) := by
    refine Eq.mp (congrArg (Json.Spells _) ?_) <| spells_two_members
      (Json.tokenSpelling_quoted "locale") (Json.tokenSpelling_quoted "é")
      (Json.tokenSpelling_quoted "currency_symbol") (Json.tokenSpelling_quoted "😀")
    decide +kernel
  have hface : Json.CharSpelling '😀' "\\uD83d\\uDe00".toList :=
    .pair (.digits rfl rfl rfl rfl) (.digits rfl rfl rfl rfl) (by decide) (by decide) (by decide)
      (by decide) (by decide)
  have haccent : Json.CharSpelling 'é' "\\u00E9".toList :=
    .unit (@Json.UnitSpelling.digits '0' '0' 'E' '9' 0 0 14 9 rfl rfl rfl rfl)
  have hletter : Json.CharSpelling 'a' "\\u0061".toList :=
    .unit (@Json.UnitSpelling.digits '0' '0' '6' '1' 0 0 6 1 rfl rfl rfl rfl)
  have hl : Json.CharSpelling 'l' ['l'] := charSpelling_of_isAlpha rfl
  have ho : Json.CharSpelling 'o' ['o'] := charSpelling_of_isAlpha rfl
  have hk : Json.CharSpelling 'c' ['c'] := charSpelling_of_isAlpha rfl
  have he : Json.CharSpelling 'e' ['e'] := charSpelling_of_isAlpha rfl
  have hspace : ∀ {c}, Json.isSpace c = true → ∀ d ∈ [c], Json.isSpace d = true :=
    fun h _ hd => List.mem_singleton.mp hd ▸ h
  have hd : Json.Writes d (.object refused') := by
    refine Eq.mp (congrArg (Json.Spells _) ?_) <|
      @Json.Spells.cons _ _ [' '] _ _ (hspace rfl) .openBrace <|
      @Json.Spells.cons _ _ ['\n'] _ _ (hspace rfl) (Json.tokenSpelling_quoted "currency_symbol") <|
      @Json.Spells.cons _ _ [' '] _ _ (hspace rfl) .colon <|
      @Json.Spells.cons _ _ ['\t'] _ _ (hspace rfl) (.string (.cons hface .nil)) <|
      .next .comma <|
      .next (.string <| .cons hl <| .cons ho <| .cons hk <| .cons hletter <| .cons hl <|
        .cons he .nil) <|
      .next .colon <| .next (.string (.cons haccent .nil)) <|
      @Json.Spells.cons _ _ ['\r'] _ _ (hspace rfl) .closeBrace .done
    decide +kernel
  refine ⟨⟨hp, ha, hb, ofText_eq_of_perm hp ha hb, ?_⟩, hq, hc, hd, ofText_eq_of_perm hq hc hd, ?_⟩
  · rw [ofText, Json.ofText?_eq_some_iff.mpr hb]
    rfl
  · rw [ofText, Json.ofText?_eq_some_iff.mpr hd]
    rfl

end AdminPanel.Config
