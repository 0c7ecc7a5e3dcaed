import ApexLayout.Command
import Mathlib.Data.List.Nodup

/-!
What a run prints, and why it fails.

The effective settings are given field by field: an option of the command line wins over what the
settings file sets, and that wins over the default. A run prints exactly when every stage succeeds,
and otherwise fails with the first stage that does not (`run_outcome`).
-/

namespace ApexLayout

/-! ## Fields of settings -/

namespace Settings

/-- The fields that a value gives, by their names; a list gives them in their order. -/
def fieldsOf : Json → List (Text × Json)
  | .object fields => fields
  | .array items => fieldNames.zip items
  | _ => []

/-- The indentation style that the fields set, if they do. -/
def styleIn? (fields : List (Text × Json)) : Option IndentStyle :=
  fields.lookup "indent_style".toList >>= IndentStyle.ofJson?

/-- The number that the fields set under a name, if they do. -/
def numberIn? (fields : List (Text × Json)) (name : Text) : Option Nat :=
  fields.lookup name >>= number?

/-- The settings with the given fields in place of their own. -/
def overlay (settings : Settings) (fields : List (Text × Json)) : Settings where
  indentStyle := (styleIn? fields).getD settings.indentStyle
  indentWidth := (numberIn? fields "indent_width").getD settings.indentWidth
  chainThreshold := (numberIn? fields "chain_threshold").getD settings.chainThreshold

theorem overlay_nil (settings : Settings) : settings.overlay [] = settings := rfl

theorem styleIn?_cons (name : Text) (value : Json) (fields : List (Text × Json)) :
    styleIn? ((name, value) :: fields) =
      if name = "indent_style".toList then IndentStyle.ofJson? value else styleIn? fields := by
  unfold styleIn?
  by_cases hname : name = "indent_style".toList
  · rw [if_pos hname, hname, List.lookup_cons_self]
    rfl
  · rw [if_neg hname, List.lookup_cons, beq_false_of_ne (Ne.symm hname)]

theorem numberIn?_cons (name other : Text) (value : Json) (fields : List (Text × Json)) :
    numberIn? ((name, value) :: fields) other =
      if name = other then number? value else numberIn? fields other := by
  unfold numberIn?
  by_cases hname : name = other
  · rw [if_pos hname, hname, List.lookup_cons_self]
    rfl
  · rw [if_neg hname, List.lookup_cons, beq_false_of_ne (Ne.symm hname)]

theorem lookup_of_fresh {name : Text} {fields : List (Text × Json)}
    (h : name ∉ fields.map Prod.fst) : fields.lookup name = none := by
  rw [List.lookup_eq_none_iff]
  intro item hitem
  exact bne_iff_ne.2 fun hname => h (List.mem_map.2 ⟨item, hitem, hname.symm⟩)

theorem style_ne_width : "indent_style".toList ≠ "indent_width".toList := by decide

theorem style_ne_threshold : "indent_style".toList ≠ "chain_threshold".toList := by decide

theorem width_ne_threshold : "indent_width".toList ≠ "chain_threshold".toList := by decide

/-- A field sets the one part of the settings that has its name. -/
theorem set?_eq_some {settings final : Settings} {field : Text × Json} :
    settings.set? field = some final ↔
      (field.1 = "indent_style".toList ∧ ∃ style, IndentStyle.ofJson? field.2 = some style ∧
        final = { settings with indentStyle := style }) ∨
      (field.1 = "indent_width".toList ∧ ∃ width, number? field.2 = some width ∧
        final = { settings with indentWidth := width }) ∨
      (field.1 = "chain_threshold".toList ∧ ∃ threshold, number? field.2 = some threshold ∧
        final = { settings with chainThreshold := threshold }) := by
  unfold set?
  constructor
  · intro h
    split at h
    case isTrue hname =>
      obtain ⟨style, hvalue, rfl⟩ := Option.map_eq_some_iff.1 h
      exact .inl ⟨hname, style, hvalue, rfl⟩
    split at h
    case isTrue hname =>
      obtain ⟨width, hvalue, rfl⟩ := Option.map_eq_some_iff.1 h
      exact .inr (.inl ⟨hname, width, hvalue, rfl⟩)
    split at h
    case isTrue hname =>
      obtain ⟨threshold, hvalue, rfl⟩ := Option.map_eq_some_iff.1 h
      exact .inr (.inr ⟨hname, threshold, hvalue, rfl⟩)
    cases h
  -- the three names differ, so only the branch of the name is taken
  · rintro (⟨hname, style, hvalue, rfl⟩ | ⟨hname, width, hvalue, rfl⟩ |
      ⟨hname, threshold, hvalue, rfl⟩)
    · rw [if_pos hname, hvalue]
      rfl
    · rw [hname, if_neg style_ne_width.symm, if_pos rfl, hvalue]
      rfl
    · rw [hname, if_neg style_ne_threshold.symm, if_neg width_ne_threshold.symm, if_pos rfl, hvalue]
      rfl

/-- One field and then the others, none of which has its name. -/
theorem overlay_cons {settings first : Settings} {field : Text × Json}
    {fields : List (Text × Json)} (h : settings.set? field = some first)
    (hfresh : field.1 ∉ fields.map Prod.fst) :
    settings.overlay (field :: fields) = first.overlay fields := by
  obtain ⟨name, value⟩ := field
  have hnone : fields.lookup name = none := lookup_of_fresh hfresh
  unfold overlay
  rw [styleIn?_cons, numberIn?_cons, numberIn?_cons]
  -- each name sets its own field and leaves the other two to the rest
  obtain ⟨rfl, style, hvalue, rfl⟩ | ⟨rfl, width, hvalue, rfl⟩ | ⟨rfl, threshold, hvalue, rfl⟩ :=
    set?_eq_some.1 h
  · have hrest : styleIn? fields = none := by rw [styleIn?, hnone]; rfl
    rw [if_pos rfl, if_neg style_ne_width, if_neg style_ne_threshold, hvalue, hrest]
    rfl
  · have hrest : numberIn? fields "indent_width" = none := by rw [numberIn?, hnone]; rfl
    rw [if_neg style_ne_width.symm, if_pos rfl, if_neg width_ne_threshold, hvalue, hrest]
    rfl
  · have hrest : numberIn? fields "chain_threshold" = none := by rw [numberIn?, hnone]; rfl
    rw [if_neg style_ne_threshold.symm, if_neg width_ne_threshold.symm, if_pos rfl, hvalue, hrest]
    rfl

/-- Setting fields one after another is putting them in place all at once. -/
theorem foldlM_set? {settings final : Settings} {fields : List (Text × Json)}
    (hnodup : (fields.map Prod.fst).Nodup) (h : fields.foldlM set? settings = some final) :
    final = settings.overlay fields := by
  induction fields generalizing settings with
  | nil => exact (Option.some.inj h).symm
  | cons field fields ih =>
    obtain ⟨hfresh, hnodup⟩ := List.nodup_cons.1 hnodup
    rw [List.foldlM_cons] at h
    obtain ⟨first, hfirst, h⟩ := Option.bind_eq_some_iff.1 h
    rw [overlay_cons hfirst hfresh]
    exact ih hnodup h

/-- Settings that are read from a value hold its fields, and defaults elsewhere. -/
theorem ofJson?_eq_some {json : Json} {settings : Settings} (h : ofJson? json = some settings) :
    settings = overlay default (fieldsOf json) := by
  have hfields : ∀ fields, ofFields? fields = some settings →
      settings = overlay default fields := by
    intro fields hfields
    unfold ofFields? at hfields
    split at hfields
    · exact foldlM_set? ‹_› hfields
    · cases hfields
  unfold ofJson? at h
  split at h
  · exact hfields _ h
  · split at h
    · exact hfields _ h
    · cases h
  · cases h

end Settings

/-! ## Stages of a run -/

namespace Invocation

variable (invocation : Invocation) (userPath : Option Text) (disk : Disk)

/-- The settings file of a run: the one that is named, and only without it the user's file, if it
is one. -/
def settingsFile : Option Text :=
  match invocation.settingsPath, userPath with
  | some path, _ => some path
  | none, some path => if disk.isFile path then some path else none
  | none, none => none

/-- The settings that a run uses, each from its option, else from the fields of the settings file,
else the default. -/
def effective (fields : List (Text × Json)) : Settings where
  indentStyle := (invocation.indentStyle <|> Settings.styleIn? fields).getD .tabs
  indentWidth := (invocation.indentWidth <|> Settings.numberIn? fields "indent_width").getD 4
  chainThreshold :=
    (invocation.chainThreshold <|> Settings.numberIn? fields "chain_threshold").getD 2

/-- The settings of a run load: there is no settings file, or it holds settings. -/
inductive Loads : Settings → Prop
  | defaults (file : invocation.settingsFile userPath disk = none) :
      Loads (invocation.effective [])
  | file {path text : Text} {json : Json}
      (file : invocation.settingsFile userPath disk = some path) (read : disk path = .ok text)
      (parsed : Json.ofText? text = some json) (valid : (Settings.ofJson? json).isSome = true) :
      Loads (invocation.effective (Settings.fieldsOf json))

/-- The first stage of a run that fails, with the reason: settings, input, reading, printing. -/
inductive FailsFirst : Failure → Prop
  | settingsUnread {path : Text} {reason : ReadFailure}
      (file : invocation.settingsFile userPath disk = some path) (read : disk path = .error reason) :
      FailsFirst (.settingsUnread path reason)
  | settingsInvalid {path text : Text} (file : invocation.settingsFile userPath disk = some path)
      (read : disk path = .ok text) (invalid : Settings.ofText? text = none) :
      FailsFirst (.settingsInvalid path)
  | inputUnread {settings : Settings} {reason : ReadFailure}
      (loads : Loads invocation userPath disk settings)
      (read : disk invocation.input = .error reason) :
      FailsFirst (.inputUnread invocation.input reason)
  | inputRefused {settings : Settings} {source : Text} {error : SyntaxError}
      (loads : Loads invocation userPath disk settings) (read : disk invocation.input = .ok source)
      (refused : parseUnit source = .error error) :
      FailsFirst (.inputRefused invocation.input error)
  | inputUnprintable {settings : Settings} {source : Text} {error : RenderError}
      (loads : Loads invocation userPath disk settings) (read : disk invocation.input = .ok source)
      (plain : invocation.dumpsTree = false)
      (unprintable : format settings source = .error (.unprintable error)) :
      FailsFirst (.inputUnprintable invocation.input error)

/-- A run succeeds with a text: the settings load, the input is read, and the text is its tree or
what it is formatted to. -/
inductive Succeeds : Text → Prop
  | formatted {settings : Settings} {source output : Text}
      (loads : Loads invocation userPath disk settings) (read : disk invocation.input = .ok source)
      (plain : invocation.dumpsTree = false) (formatted : format settings source = .ok output) :
      Succeeds output
  | dumped {settings : Settings} {source : Text} {unit : CompilationUnit}
      (loads : Loads invocation userPath disk settings) (read : disk invocation.input = .ok source)
      (dumps : invocation.dumpsTree = true) (parsed : parseUnit source = .ok unit) :
      Succeeds unit.dump

variable {invocation userPath disk}

/-- Options over the settings of a file are the effective settings. -/
theorem override_overlay (fields : List (Text × Json)) :
    invocation.override (Settings.overlay default fields) = invocation.effective fields := by
  unfold override effective Settings.overlay
  cases invocation.indentStyle <;> cases invocation.indentWidth <;>
    cases invocation.chainThreshold <;> rfl

theorem settingsFile_eq :
    (invocation.settingsPath <|> userPath.filter disk.isFile) =
      invocation.settingsFile userPath disk := by
  unfold settingsFile
  cases invocation.settingsPath with
  | some path => rfl
  | none =>
    cases userPath with
    | none => rfl
    | some path => cases hfile : disk.isFile path <;> simp [hfile]

/-- Settings that load are the settings of the run. -/
theorem Loads.settings_eq {settings : Settings} (h : Loads invocation userPath disk settings) :
    invocation.settings userPath disk = .ok settings := by
  unfold Invocation.settings
  rw [settingsFile_eq]
  cases h with
  | defaults hfile =>
    rw [hfile, ← override_overlay, Settings.overlay_nil]
    rfl
  | @file path text json hfile hread hjson hvalid =>
    obtain ⟨settings, hsettings⟩ := Option.isSome_iff_exists.1 hvalid
    have htext : Settings.ofText? text = some settings := by
      rw [Settings.ofText?, hjson]
      exact hsettings
    rw [hfile, ← override_overlay, ← Settings.ofJson?_eq_some hsettings]
    simp only [readSettings, hread, htext]
    rfl

/-- Without settings that load, the run has a first failure. -/
theorem loads_or_fails (invocation : Invocation) (userPath : Option Text) (disk : Disk) :
    (∃ settings, Loads invocation userPath disk settings) ∨
      ∃ failure, FailsFirst invocation userPath disk failure := by
  cases hfile : invocation.settingsFile userPath disk with
  | none => exact .inl ⟨_, .defaults hfile⟩
  | some path =>
    cases hread : disk path with
    | error reason => exact .inr ⟨_, .settingsUnread hfile hread⟩
    | ok text =>
      cases hsettings : Settings.ofText? text with
      | none => exact .inr ⟨_, .settingsInvalid hfile hread hsettings⟩
      | some settings =>
        obtain ⟨json, hjson, hvalid⟩ := Option.bind_eq_some_iff.1 hsettings
        exact .inl ⟨_, .file hfile hread hjson (by rw [hvalid]; rfl)⟩

theorem format_eq_unprintable {settings : Settings} {source : Text} {error : RenderError} :
    format settings source = .error (.unprintable error) ↔
      ∃ unit, parseUnit source = .ok unit ∧ unit.print settings = .error error := by
  unfold format
  cases parseUnit source with
  | error failure => simp
  | ok unit => cases hprint : unit.print settings <;> simp [hprint]

theorem format_eq_printed {settings : Settings} {source output : Text} :
    format settings source = .ok output ↔
      ∃ unit, parseUnit source = .ok unit ∧ unit.print settings = .ok output := by
  unfold format
  cases parseUnit source with
  | error failure => simp
  | ok unit => cases hprint : unit.print settings <;> simp [hprint]

/-- A run gives the text of its success. -/
theorem Succeeds.output_eq {text : Text} (h : Succeeds invocation userPath disk text) :
    invocation.output userPath disk = .ok text := by
  unfold output
  cases h with
  | formatted hloads hread hplain hformat =>
    obtain ⟨unit, hunit, hprint⟩ := format_eq_printed.1 hformat
    simp [hloads.settings_eq, hread, hunit, hplain, hprint, bind, Except.bind, Except.mapError]
  | dumped hloads hread hdumps hunit =>
    simp [hloads.settings_eq, hread, hunit, hdumps, bind, Except.bind, Except.mapError, pure,
      Except.pure]

/-- A run gives its first failure. -/
theorem FailsFirst.output_eq {failure : Failure} (h : FailsFirst invocation userPath disk failure) :
    invocation.output userPath disk = .error failure := by
  unfold output
  cases h with
  | settingsUnread hfile hread =>
    unfold Invocation.settings
    rw [settingsFile_eq, hfile]
    simp [readSettings, hread, bind, Except.bind]
  | settingsInvalid hfile hread hinvalid =>
    unfold Invocation.settings
    rw [settingsFile_eq, hfile]
    simp [readSettings, hread, hinvalid, bind, Except.bind]
  | inputUnread hloads hread =>
    simp [hloads.settings_eq, hread, bind, Except.bind, Except.mapError]
  | inputRefused hloads hread hrefused =>
    simp [hloads.settings_eq, hread, hrefused, bind, Except.bind, Except.mapError]
  | inputUnprintable hloads hread hplain hformat =>
    obtain ⟨unit, hunit, hprint⟩ := format_eq_unprintable.1 hformat
    simp [hloads.settings_eq, hread, hunit, hplain, hprint, bind, Except.bind, Except.mapError]

/-- A run has a success or a first failure. -/
theorem succeeds_or_fails (invocation : Invocation) (userPath : Option Text) (disk : Disk) :
    (∃ text, Succeeds invocation userPath disk text) ∨
      ∃ failure, FailsFirst invocation userPath disk failure := by
  obtain ⟨settings, hloads⟩ | ⟨failure, hfails⟩ :=
    loads_or_fails invocation userPath disk
  case inr => exact .inr ⟨failure, hfails⟩
  cases hread : disk invocation.input with
  | error reason => exact .inr ⟨_, .inputUnread hloads hread⟩
  | ok source =>
    cases hunit : parseUnit source with
    | error error => exact .inr ⟨_, .inputRefused hloads hread hunit⟩
    | ok unit =>
      cases hdumps : invocation.dumpsTree with
      | true => exact .inl ⟨_, .dumped hloads hread hdumps hunit⟩
      | false =>
        cases hprint : unit.print settings with
        | error error =>
          exact .inr ⟨_, .inputUnprintable hloads hread hdumps
            (format_eq_unprintable.2 ⟨unit, hunit, hprint⟩)⟩
        | ok text =>
          exact .inl ⟨text, .formatted hloads hread hdumps
            (format_eq_printed.2 ⟨unit, hunit, hprint⟩)⟩

end Invocation

/-! ## Runs -/

/-- What a run writes to its output. -/
def Outcome.stdout : Outcome → Text
  | .printed text => text
  | .failed _ | .misused => []

/-- A run with arguments that are accepted exits with status 0 and prints a text exactly when all its
stages succeed with that text; otherwise it exits with status 1, prints nothing, and its failure is
the first one. -/
theorem run_outcome {arguments : List Text} {invocation : Invocation}
    (h : Invocation.ofArguments? arguments = some invocation) (userPath : Option Text)
    (disk : Disk) :
    (∀ output, ((run arguments userPath disk).status = 0 ∧
        (run arguments userPath disk).stdout = output) ↔
      invocation.Succeeds userPath disk output) ∧
    ((run arguments userPath disk).status ≠ 0 →
      (run arguments userPath disk).status = 1 ∧ (run arguments userPath disk).stdout = [] ∧
        ∃ failure, run arguments userPath disk = .failed failure ∧
          invocation.FailsFirst userPath disk failure) := by
  unfold run
  rw [h]
  obtain ⟨text, hsuccess⟩ | ⟨failure, hfails⟩ :=
    Invocation.succeeds_or_fails invocation userPath disk
  · simp only [hsuccess.output_eq]
    refine ⟨fun output => ⟨?_, fun houtput => ?_⟩, fun hstatus => absurd rfl hstatus⟩
    · rintro ⟨-, rfl⟩
      exact hsuccess
    · have hsame := hsuccess.output_eq.symm.trans houtput.output_eq
      exact ⟨rfl, Except.ok.inj hsame⟩
  · simp only [hfails.output_eq]
    refine ⟨fun output => ⟨?_, fun houtput => ?_⟩, fun _ => ⟨rfl, rfl, failure, rfl, hfails⟩⟩
    · rintro ⟨hstatus, -⟩
      cases hstatus
    · have hsame := hfails.output_eq.symm.trans houtput.output_eq
      cases hsame

/-- The disk that holds the given files and nothing else. -/
def Disk.ofFiles (files : List (Text × Text)) : Disk := fun path =>
  match files.lookup path with
  | some text => .ok text
  | none => .error .missing

/-- The style of the command line, the width of the user's file and the default threshold; and the
tree of a source, under settings that have no part in it. -/
theorem run_outcome_spaces_tree :
    (∃ invocation, Invocation.ofArguments? ["--indent=spaces", "A.cls"] = some invocation ∧
      invocation.Succeeds (some "user.json")
        (.ofFiles [("user.json", "\x7b\"indent_width\": 2, \"indent_style\": \"tabs\"\x7d"),
          ("A.cls", "class A\x7bB c;\x7d")])
        "class A \x7b\n  B c;\n\x7d\n") ∧
    ∃ invocation, Invocation.ofArguments? ["--config", "c.json", "--tree", "E.cls"] =
        some invocation ∧
      invocation.Succeeds none
        (.ofFiles [("c.json", "\x7b\"indent_style\": \"spaces\"\x7d"), ("E.cls", "enum E\x7bX\x7d")])
        ("\x7b\n  \"declaration\": \x7b\n    \"enum\": \x7b\n      \"modifiers\": [],\n" ++
          "      \"name\": \"E\",\n      \"constants\": [\n        \"X\"\n      ]\n    \x7d\n" ++
          "  \x7d\n\x7d\n") := by
  constructor
  · have hsome : (Invocation.ofArguments? ["--indent=spaces", "A.cls"]).isSome = true := by
      decide +kernel
    obtain ⟨invocation, h⟩ := Option.isSome_iff_exists.1 hsome
    refine ⟨invocation, h, ((run_outcome h _ _).1 _).1 ⟨?_, ?_⟩⟩ <;> decide +kernel
  · have hsome : (Invocation.ofArguments? ["--config", "c.json", "--tree", "E.cls"]).isSome = true := by
      decide +kernel
    obtain ⟨invocation, h⟩ := Option.isSome_iff_exists.1 hsome
    refine ⟨invocation, h, ((run_outcome h _ _).1 _).1 ⟨?_, ?_⟩⟩ <;> decide +kernel

end ApexLayout
