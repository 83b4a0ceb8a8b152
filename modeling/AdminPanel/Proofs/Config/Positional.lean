import AdminPanel.Proofs.Config.Format

/-! # Configurations by position

A configuration can be given by position, as an array, or by name. An array of at most four values
is read as the object that gives these values to the first of the names, with the same outcome
whatever the values are; a longer array has no counterpart and is malformed
(`ofText_by_position`). -/
namespace AdminPanel.Config

variable {elements : List Json}

theorem nodup_memberNames : memberNames.Nodup := by decide

/-- Each of the four names finds the element at its own place, or nothing past the last one. -/
theorem ofMembers?_zip (h : elements.length ≤ memberNames.length) :
    Document.ofMembers? (memberNames.zip elements) = Document.ofElements? elements := by
  have hnames := names_zip memberNames elements
  have hcheck : ((memberNames.zip elements).map Prod.fst).Nodup ∧
      ∀ name ∈ (memberNames.zip elements).map Prod.fst, name ∈ memberNames :=
    ⟨hnames.sublist.nodup nodup_memberNames, fun _ hn => hnames.subset hn⟩
  have hlookup : ∀ i name, memberNames[i]? = some name →
      (memberNames.zip elements).lookup name = elements[i]? :=
    fun _ _ hi => lookup_zip nodup_memberNames elements hi
  rw [Document.ofMembers?, if_pos hcheck, Document.ofElements?, if_pos h,
    hlookup 0 "locale" rfl, hlookup 1 "price_field_name" rfl, hlookup 2 "currency_symbol" rfl,
    hlookup 3 "sync_select_all" rfl]

/-- Values stand for the same document by position as by name. -/
theorem ofJson?_zip (h : elements.length ≤ memberNames.length) :
    Document.ofJson? (.object (memberNames.zip elements)) = Document.ofJson? (.array elements) :=
  ofMembers?_zip h

theorem ofJson?_of_long (h : memberNames.length < elements.length) :
    Document.ofJson? (.array elements) = none := by
  rw [Document.ofJson?, Document.ofElements?, if_neg (Nat.not_le.mpr h)]

/-- What is written decides the outcome, and that only through the document it stands for. -/
theorem ofText_congr {a b : String} {value other : Json} (ha : Json.Writes a value)
    (hb : Json.Writes b other) (h : Document.ofJson? value = Document.ofJson? other) :
    ofText a = ofText b := by
  rw [ofText, ofText, Json.ofText?_eq_some_iff.mpr ha, Json.ofText?_eq_some_iff.mpr hb,
    Option.bind_some, Option.bind_some, h]

/-- **Position and name agree.** An array of at most four values can be written as an object with
the first of the names, and every text of that object has the outcome of every text of the array:
the same configuration, or the same error. An array of more values is malformed. -/
theorem ofText_by_position {text : String} (h : Json.Writes text (.array elements)) :
    (elements.length ≤ 4 →
      (∃ named, Json.Writes named (.object (memberNames.zip elements))) ∧
      ∀ named, Json.Writes named (.object (memberNames.zip elements)) →
        ofText text = ofText named) ∧
    (4 < elements.length → ofText text = .error .malformed) := by
  refine ⟨fun hshort => ⟨?_, fun named hn => ?_⟩, fun hlong => ?_⟩
  · exact Json.exists_writes_object h fun _ hm => (List.of_mem_zip hm).2
  · exact ofText_congr h hn (ofJson?_zip hshort).symm
  · rw [ofText, Json.ofText?_eq_some_iff.mpr h, Option.bind_some, ofJson?_of_long hlong]

/-- Four values are accepted in both forms. A nested value in the place of a text is malformed in
both, although the language before it is not spoken either; and so is a fifth value, although it is
null. -/
theorem ofText_by_position_of_nested_symbol :
    let accepted : List Json := [.string "PL", .null, .string "zł", .bool true]
    let elements : List Json := [.string "ja", .null, .array [.bool true]]
    let longer : List Json := [.null, .null, .null, .bool true, .null]
    let array := "[\"PL\",null,\"zł\",true]"
    let object := "\x7b\"locale\":\"PL\",\"price_field_name\":null,\"currency_symbol\":\"zł\"," ++
      "\"sync_select_all\":true\x7d"
    let text := "[\"ja\",null,[true]]"
    let named := "\x7b\"locale\":\"ja\",\"price_field_name\":null,\"currency_symbol\":[true]\x7d"
    (Json.Writes array (.array accepted) ∧ accepted.length ≤ 4 ∧
      Json.Writes object (.object (memberNames.zip accepted)) ∧ ofText array = ofText object ∧
      ofText object = .ok ⟨some .polish, "price", some "zł", true⟩) ∧
    Json.Writes text (.array elements) ∧ elements.length ≤ 4 ∧
      Json.Writes named (.object (memberNames.zip elements)) ∧ ofText text = ofText named ∧
      ofText named = .error .malformed ∧
      Json.Writes "[null,null,null,true,null]" (.array longer) ∧ 4 < longer.length ∧
      ofText "[null,null,null,true,null]" = .error .malformed := by
  intro accepted elements longer array object text named
  have harray : Json.Writes array (.array accepted) := by
    refine Eq.mp (congrArg (Json.Spells _) ?_) <| Json.Spells.next .openBracket <|
      .next (Json.tokenSpelling_quoted "PL") <| .next .comma <| .next .nullWord <|
      .next .comma <| .next (Json.tokenSpelling_quoted "zł") <| .next .comma <|
      .next .trueWord <| .next .closeBracket .done
    decide +kernel
  have hobject : Json.Writes object (.object (memberNames.zip accepted)) := by
    refine Eq.mp (congrArg (Json.Spells _) ?_) <| Json.Spells.next .openBrace <|
      .next (Json.tokenSpelling_quoted "locale") <| .next .colon <|
      .next (Json.tokenSpelling_quoted "PL") <| .next .comma <|
      .next (Json.tokenSpelling_quoted "price_field_name") <| .next .colon <| .next .nullWord <|
      .next .comma <| .next (Json.tokenSpelling_quoted "currency_symbol") <| .next .colon <|
      .next (Json.tokenSpelling_quoted "zł") <| .next .comma <|
      .next (Json.tokenSpelling_quoted "sync_select_all") <| .next .colon <| .next .trueWord <|
      .next .closeBrace .done
    decide +kernel
  have htext : Json.Writes text (.array elements) := by
    refine Eq.mp (congrArg (Json.Spells _) ?_) <| Json.Spells.next .openBracket <|
      .next (Json.tokenSpelling_quoted "ja") <| .next .comma <| .next .nullWord <|
      .next .comma <| .next .openBracket <| .next .trueWord <| .next .closeBracket <|
      .next .closeBracket .done
    decide +kernel
  have hnamed : Json.Writes named (.object (memberNames.zip elements)) := by
    refine Eq.mp (congrArg (Json.Spells _) ?_) <| Json.Spells.next .openBrace <|
      .next (Json.tokenSpelling_quoted "locale") <| .next .colon <|
      .next (Json.tokenSpelling_quoted "ja") <| .next .comma <|
      .next (Json.tokenSpelling_quoted "price_field_name") <| .next .colon <| .next .nullWord <|
      .next .comma <| .next (Json.tokenSpelling_quoted "currency_symbol") <| .next .colon <|
      .next .openBracket <| .next .trueWord <| .next .closeBracket <| .next .closeBrace .done
    decide +kernel
  have hlonger : Json.Writes "[null,null,null,true,null]" (.array longer) :=
    Json.Spells.next .openBracket <| .next .nullWord <| .next .comma <| .next .nullWord <|
      .next .comma <| .next .nullWord <| .next .comma <| .next .trueWord <| .next .comma <|
      .next .nullWord <| .next .closeBracket .done
  have hfour : accepted.length ≤ 4 := by decide
  have hshort : elements.length ≤ 4 := by decide
  have hlong : 4 < longer.length := by decide
  refine ⟨⟨harray, hfour, hobject, ((ofText_by_position harray).1 hfour).2 object hobject, ?_⟩,
    htext, hshort, hnamed, ((ofText_by_position htext).1 hshort).2 named hnamed, ?_, hlonger, hlong,
    (ofText_by_position hlonger).2 hlong⟩
  · rw [ofText, Json.ofText?_eq_some_iff.mpr hobject]
    rfl
  · rw [ofText, Json.ofText?_eq_some_iff.mpr hnamed]
    rfl

end AdminPanel.Config
