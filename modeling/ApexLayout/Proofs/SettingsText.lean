import ApexLayout.Proofs.CommandLine
import ApexLayout.Proofs.Json.Shapes

/-!
Settings as text.

What fields are set to is looked up by their names, so the order of the fields does not matter
(`overlay_perm`), and a name that is unknown or there twice is refused (`ofFields?_names`). Both
carry over to the text of an object, however it is written (`Settings.ofText?_object`).
-/

namespace ApexLayout

/-- The value that names the style: its name, or an object with nothing in it under its name. -/
def IndentStyle.toJson (style : IndentStyle) (tagged : Bool) : Json :=
  if tagged then .tagged style.text .null else .string style.text

theorem IndentStyle.ofJson?_toJson (style : IndentStyle) (tagged : Bool) :
    IndentStyle.ofJson? (style.toJson tagged) = some style := by
  cases style <;> cases tagged <;> rfl

namespace Settings

/-! ## Names -/

/-- Only the names of fields set something. -/
theorem set?_name {settings final : Settings} {field : Text × Json}
    (h : settings.set? field = some final) : field.1 ∈ fieldNames := by
  obtain ⟨hname, -⟩ | ⟨hname, -⟩ | ⟨hname, -⟩ := set?_eq_some.1 h
  all_goals
    rw [hname]
    decide

/-- Fields that set something have the names of fields. -/
theorem foldlM_names {settings final : Settings} {fields : List (Text × Json)}
    (h : fields.foldlM set? settings = some final) :
    ∀ name ∈ fields.map Prod.fst, name ∈ fieldNames := by
  induction fields generalizing settings with
  | nil => exact fun _ hname => absurd hname List.not_mem_nil
  | cons field fields ih =>
    rw [List.foldlM_cons] at h
    obtain ⟨first, hfirst, h⟩ := Option.bind_eq_some_iff.1 h
    exact List.forall_mem_cons.2 ⟨set?_name hfirst, ih h⟩

/-- Fields that are accepted have different names, all of them those of fields. -/
theorem ofFields?_names {settings : Settings} {fields : List (Text × Json)}
    (h : ofFields? fields = some settings) :
    (fields.map Prod.fst).Nodup ∧ ∀ name ∈ fields.map Prod.fst, name ∈ fieldNames := by
  unfold ofFields? at h
  split at h
  case isTrue hnodup => exact ⟨hnodup, foldlM_names h⟩
  case isFalse => cases h

/-- A text with the keys of an object is refused if one is unknown or there twice. -/
theorem ofText?_keyed {before after : List Text} {name text : Text}
    (hname : name ∉ fieldNames ∨ name ∈ before ++ after)
    (htext : Json.Spaced (Json.Keyed (before ++ name :: after)) text) : ofText? text = none := by
  refine Option.eq_none_iff_forall_ne_some.2 fun settings hsettings => ?_
  obtain ⟨json, hjson, hfields⟩ := Option.bind_eq_some_iff.1 hsettings
  obtain ⟨fields, rfl, hkeys⟩ := Json.ofText?_keyed htext hjson
  obtain ⟨hnodup, hknown⟩ := ofFields?_names hfields
  rw [hkeys] at hnodup hknown
  obtain hunknown | hagain := hname
  · exact hunknown (hknown name (by simp))
  · exact (List.nodup_cons.1 (List.nodup_middle.1 hnodup)).1 hagain

/-! ## Order -/

/-- A name is looked up in any order of the fields. -/
theorem lookup_perm {fields others : List (Text × Json)} (h : fields.Perm others)
    (hnodup : (fields.map Prod.fst).Nodup) (name : Text) :
    fields.lookup name = others.lookup name := by
  induction h with
  | nil => rfl
  | cons field _ ih =>
    rw [List.lookup_cons, List.lookup_cons, ih (List.nodup_cons.1 hnodup).2]
  | swap first second fields =>
    -- the name that is looked up is that of one of the two at most
    have hne : second.1 ≠ first.1 := by
      have hfresh := (List.nodup_cons.1 hnodup).1
      exact fun hsame => hfresh (by simp [hsame])
    rw [List.lookup_cons, List.lookup_cons, List.lookup_cons, List.lookup_cons]
    by_cases hfirst : name = first.1
    · rw [hfirst, beq_self_eq_true, beq_false_of_ne hne.symm]
    · rw [beq_false_of_ne hfirst]
  | trans hfirst _ ih ih' =>
    rw [ih hnodup, ih' ((hfirst.map Prod.fst).nodup_iff.1 hnodup)]

/-- Fields are put in place in any order. -/
theorem overlay_perm {fields others : List (Text × Json)} (h : fields.Perm others)
    (hnodup : (fields.map Prod.fst).Nodup) (settings : Settings) :
    settings.overlay fields = settings.overlay others := by
  simp only [overlay, styleIn?, numberIn?, lookup_perm h hnodup]

/-- Fields each of which sets something do so together. -/
theorem exists_foldlM {fields : List (Text × Json)}
    (h : ∀ field ∈ fields, ∀ settings : Settings, (settings.set? field).isSome = true) :
    ∀ settings : Settings, ∃ final, fields.foldlM set? settings = some final := by
  induction fields with
  | nil => exact fun settings => ⟨settings, rfl⟩
  | cons field fields ih =>
    intro settings
    obtain ⟨hfield, hfields⟩ := List.forall_mem_cons.1 h
    obtain ⟨first, hfirst⟩ := Option.isSome_iff_exists.1 (hfield settings)
    obtain ⟨final, hfinal⟩ := ih hfields first
    exact ⟨final, by rw [List.foldlM_cons, hfirst]; exact hfinal⟩

/-! ## Objects -/

/-- The field of that name, if it has a value. -/
def fieldOf (name : Text) (value : Option Json) : List (Text × Json) := (value.map (name, ·)).toList

/-- The fields that give a style, a width and a threshold, each only where there is one. -/
def given (tagged : Bool) (style : Option IndentStyle) (width threshold : Option Nat) :
    List (Text × Json) :=
  fieldOf "indent_style" (style.map (·.toJson tagged)) ++
    (fieldOf "indent_width" (width.map .number) ++ fieldOf "chain_threshold" (threshold.map .number))

theorem mem_fieldOf {name : Text} {value : Option Json} {field : Text × Json} :
    field ∈ fieldOf name value ↔ field.1 = name ∧ value = some field.2 := by
  obtain ⟨other, content⟩ := field
  cases value <;> simp [fieldOf, and_comm, eq_comm]

theorem sublist_fieldOf (name : Text) (value : Option Json) :
    ((fieldOf name value).map Prod.fst).Sublist [name] := by
  cases value
  · exact List.nil_sublist _
  · exact List.Sublist.refl _

@[simp] theorem lookup_fieldOf (name other : Text) (value : Option Json) :
    (fieldOf name value).lookup other = if other = name then value else none := by
  cases value with
  | none => simp [fieldOf]
  | some content =>
    by_cases hname : other = name <;>
      simp [fieldOf, List.lookup_cons, hname, beq_false_of_ne]

theorem map_number {value : Option Nat} (h : ∀ n ∈ value, n < numberBound) :
    (value.map Json.number >>= number?) = value := by
  cases value with
  | none => rfl
  | some n => exact if_pos (h n rfl)

section Given

variable {tagged : Bool} {style : Option IndentStyle} {width threshold : Option Nat}

theorem nodup_given : ((given tagged style width threshold).map Prod.fst).Nodup := by
  have hnames : fieldNames.Nodup := by decide
  refine hnames.sublist ?_
  rw [given, List.map_append, List.map_append]
  exact (sublist_fieldOf _ _).append ((sublist_fieldOf _ _).append (sublist_fieldOf _ _))

/-- Every given field sets something. -/
theorem isSome_given (hwidth : ∀ n ∈ width, n < numberBound)
    (hthreshold : ∀ n ∈ threshold, n < numberBound) :
    ∀ field ∈ given tagged style width threshold, ∀ settings : Settings,
      (settings.set? field).isSome = true := by
  rintro ⟨name, value⟩ hfield settings
  simp only [given, List.mem_append, mem_fieldOf, Option.map_eq_some_iff] at hfield
  rw [Option.isSome_iff_exists]
  obtain ⟨rfl, style, -, rfl⟩ | ⟨rfl, n, hn, rfl⟩ | ⟨rfl, n, hn, rfl⟩ := hfield
  · exact ⟨_, set?_eq_some.2 (.inl ⟨rfl, style, IndentStyle.ofJson?_toJson style tagged, rfl⟩)⟩
  · exact ⟨_, set?_eq_some.2 (.inr (.inl ⟨rfl, n, if_pos (hwidth n hn), rfl⟩))⟩
  · exact ⟨_, set?_eq_some.2 (.inr (.inr ⟨rfl, n, if_pos (hthreshold n hn), rfl⟩))⟩

/-- The given fields over the defaults. -/
theorem overlay_given (hwidth : ∀ n ∈ width, n < numberBound)
    (hthreshold : ∀ n ∈ threshold, n < numberBound) :
    overlay default (given tagged style width threshold) =
      { indentStyle := style.getD .tabs, indentWidth := width.getD 4,
        chainThreshold := threshold.getD 2 } := by
  have hstyle : styleIn? (given tagged style width threshold) = style := by
    simp only [styleIn?, given, List.lookup_append, lookup_fieldOf, if_true, style_ne_width,
      style_ne_threshold, if_false, Option.or_none]
    cases style with
    | none => rfl
    | some style => exact IndentStyle.ofJson?_toJson style tagged
  have hwidths : numberIn? (given tagged style width threshold) "indent_width" = width := by
    simp only [numberIn?, given, List.lookup_append, lookup_fieldOf, if_true, style_ne_width.symm,
      width_ne_threshold, if_false, Option.none_or, Option.or_none]
    exact map_number hwidth
  have hthresholds :
      numberIn? (given tagged style width threshold) "chain_threshold" = threshold := by
    simp only [numberIn?, given, List.lookup_append, lookup_fieldOf, if_true,
      style_ne_threshold.symm, width_ne_threshold.symm, if_false, Option.none_or]
    exact map_number hthreshold
  rw [overlay, hstyle, hwidths, hthresholds]
  rfl

/-- In any order the given fields are accepted. -/
theorem ofFields?_given {fields : List (Text × Json)} (hwidth : ∀ n ∈ width, n < numberBound)
    (hthreshold : ∀ n ∈ threshold, n < numberBound)
    (horder : fields.Perm (given tagged style width threshold)) :
    ofFields? fields =
      some { indentStyle := style.getD .tabs, indentWidth := width.getD 4,
             chainThreshold := threshold.getD 2 } := by
  have hnodup : (fields.map Prod.fst).Nodup := (horder.map Prod.fst).nodup_iff.2 nodup_given
  obtain ⟨final, hfinal⟩ := exists_foldlM (fun field hfield =>
    isSome_given hwidth hthreshold field (horder.mem_iff.1 hfield)) default
  rw [ofFields?, if_pos hnodup, hfinal, foldlM_set? hnodup hfinal, overlay_perm horder hnodup,
    overlay_given hwidth hthreshold]

end Given

/-- An object that gives a style, a width and a threshold, or only some of them, in any order and
writing, is read as these settings with the defaults for the others. With one more key at any place,
unknown or there already, it is refused, whatever its values are. -/
theorem ofText?_object (tagged : Bool) (style : Option IndentStyle) (width threshold : Option Nat)
    {fields : List (Text × Json)} (hwidth : ∀ n ∈ width, n < numberBound)
    (hthreshold : ∀ n ∈ threshold, n < numberBound)
    (horder : fields.Perm (given tagged style width threshold)) :
    (∀ text, Json.Spaced (Json.Writes (.object fields)) text →
      ofText? text =
        some { indentStyle := style.getD .tabs, indentWidth := width.getD 4,
               chainThreshold := threshold.getD 2 }) ∧
    ∀ before name after text, before ++ after = fields.map Prod.fst →
      name ∉ fieldNames ∨ name ∈ before ++ after →
        Json.Spaced (Json.Keyed (before ++ name :: after)) text → ofText? text = none := by
  refine ⟨fun text htext => ?_, fun _ _ _ _ _ hname htext => ofText?_keyed hname htext⟩
  rw [ofText?, Json.ofText?_writes htext]
  exact ofFields?_given hwidth hthreshold horder

/-- A width and a style, with an escaped key; then a key between them that holds a fraction. -/
theorem ofText?_object_spaces :
    ofText? "\x7b\"indent_width\" : 2,\n\"\\u0069ndent_style\":\"spaces\"\x7d" =
        some { indentStyle := .spaces, indentWidth := 2, chainThreshold := 2 } ∧
      ofText? "\x7b\"indent_width\":2,\"x\":[-1.5],\"indent_style\":\"spaces\"\x7d " = none := by
  have horder : [("indent_width".toList, Json.number 2), ("indent_style".toList, .string "spaces")].Perm
      (given false (some .spaces) (some 2) none) := .swap _ _ _
  have hobject := ofText?_object false (some .spaces) (some 2) none (by decide) (by decide) horder
  refine ⟨hobject.1 _ ?_, hobject.2 ["indent_width"] "x" ["indent_style"] _ rfl (.inl (by decide)) ?_⟩
  · have hkey : Json.Spells "indent_style" ("\\u0069".toList ++ "ndent_style".toList) :=
      .cons (.unit (.mk (w := 0) (x := 0) (y := 6) (z := 9) ⟨by decide, .inl rfl⟩ ⟨by decide, .inl rfl⟩
        ⟨by decide, .inl rfl⟩ ⟨by decide, .inl rfl⟩)) (Json.spells_escaped "ndent_style")
    have hwidth := Json.WritesField.mk (Json.quoted_quote "indent_width")
      (by decide : Json.Spaces [' ']) (by decide : Json.Spaces [' ']) (Json.Writes.number 2)
    have hstyle := Json.WritesField.mk ⟨_, hkey, rfl⟩ Json.spaces_nil Json.spaces_nil
      (Json.Writes.string (Json.quoted_quote "spaces"))
    have hrow := Json.Row.more Json.spaces_nil Json.spaces_nil hwidth
      (.last (by decide : Json.Spaces ['\n']) Json.spaces_nil hstyle)
    exact ⟨[], _, [], Json.spaces_nil, Json.spaces_nil, .object hrow, rfl⟩
  · have hfraction : Json.Shaped "-1.5" := .number (.inr rfl) (List.all_eq_true.1 rfl)
    have hitems : Json.Row (fun _ => Json.Shaped) [()] _ :=
      .last Json.spaces_nil Json.spaces_nil hfraction
    have hmember : ∀ {key value}, Json.Shaped value →
        Json.Member (Json.Spells key) Json.Shaped (Json.quote key ++ ':' :: value) :=
      fun hvalue => .mk (Json.quoted_quote _) Json.spaces_nil Json.spaces_nil hvalue
    exact ⟨[], _, [' '], Json.spaces_nil, by decide,
      ⟨_, .more Json.spaces_nil Json.spaces_nil (hmember (Json.Writes.number 2).shaped)
        (.more Json.spaces_nil Json.spaces_nil (hmember (.array hitems))
          (.last Json.spaces_nil Json.spaces_nil
            (hmember (Json.Writes.string (Json.quoted_quote "spaces")).shaped))), rfl⟩, rfl⟩

end Settings

end ApexLayout
