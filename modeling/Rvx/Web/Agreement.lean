import Mathlib.Data.List.ReduceOption
import Rvx.Web.Served
import Rvx.Web.Validators

/-!
# Accepted settings in the browser

The browser checks a served document again with its own validators.  They agree with the server's on
every document except for texts the server measures in characters and the browser in UTF-16 code
units, and for byte order marks, which only the browser trims.
-/

namespace Rvx.Web

open Core Check Js

/-! ## Served values -/

@[simp]
theorem text?_string (text : String) : (Js.string text).text? = some text := rfl

@[simp]
theorem number?_number (value : ℚ) : (Js.number value).number? = some value := rfl

@[simp]
theorem items?_array (list : List Js) : (Js.array list).items? = some list := rfl

@[simp]
theorem items?_texts (list : List String) : (Js.texts list).items? = some (list.map .string) := rfl

@[simp]
theorem isBool_bool (value : Bool) : (Js.bool value).isBool = true := rfl

@[simp]
theorem isTrue_string (text : String) (check : String → Bool) :
    (Js.string text).isTrue check = check text := rfl

@[simp]
theorem isOneOf_string (values : List String) (text : String) :
    (Js.string text).isOneOf values = decide (text ∈ values) := rfl

@[simp]
theorem isInteger_ofNat {low high n : ℕ} :
    (Js.ofNat n).isInteger low high = true ↔ low ≤ n ∧ n ≤ high := by
  simp [isInteger, Js.ofNat]

@[simp]
theorem isNumber_number {low high value : ℚ} :
    (Js.number value).isNumber low high = true ↔ low ≤ value ∧ value ≤ high := by
  simp [isNumber]

/-- An optional field that is served passes what its value passes. -/
theorem all_map_iff {α : Type} {serve : α → Js} {check : Js → Bool} {value : Option α} :
    (value.map serve).all check = true ↔ ∀ item ∈ value, check (serve item) = true := by
  cases value <;> simp

theorem map_text?_texts (list : List String) :
    (list.map Js.string).map text? = list.map some := by
  rw [List.map_map]
  rfl

theorem nodup_some {list : List String} : (list.map some).Nodup ↔ list.Nodup :=
  List.nodup_map_iff (Option.some_injective String)

/-- Served items are told apart by a text as the items are. -/
theorem map_text_served {α : Type} {serve : α → Js} {name : α → String} {key : String}
    (h : ∀ item, (serve item).text key = some (name item)) (list : List α) :
    (list.map serve).map (Js.text · key) = (list.map name).map some := by
  rw [List.map_map, List.map_map]
  exact List.map_congr_left fun item _ ↦ h item

/-! ## Views -/

theorem badEscape_eq (text : List Char) : Client.badEscape text = !escapesValid text := by
  fun_induction escapesValid text with
  | case1 => rfl
  | case2 => rfl
  | case3 d rest ih =>
    simp only [Client.badEscape, ih]
    by_cases hzero : d = '0'
    · simp [hzero]
    · by_cases hone : d = '1'
      · simp [hone]
      · simp [hzero, hone]
  | case4 c rest hlast hescape ih =>
    have hc : c ≠ '~' := by
      rintro rfl
      cases rest with
      | nil => exact hlast rfl rfl
      | cons d rest => exact hescape d rest rfl rfl
    simp [Client.badEscape, ih, hc]

theorem snapshotFieldPath_served {path : String} (h : validateSnapshotField path = .ok ()) :
    Client.snapshotFieldPath (.string path) = true := by
  simp only [validateSnapshotField, bind_eq_ok, exists_unit, reject_ok] at h
  obtain ⟨hnull, hpath⟩ := h
  rw [Bool.not_eq_true] at hnull
  rw [Client.snapshotFieldPath, isTrue_string, hnull, badEscape_eq]
  split at hpath
  · rename_i hspecial
    rcases hspecial with rfl | rfl <;> decide
  · rw [mapError_eq_ok] at hpath
    have hvalid := validateSnapshotPointer_ok hpath
    simp only [validateSnapshotPointer, bind_eq_ok, exists_unit, reject_ok, not_or] at hpath
    obtain ⟨hstart, hescapes⟩ := hvalid
    have hsize : path.utf8ByteSize ≤ 4096 := not_lt.mp hpath.1.1
    simp only [hsize, hescapes, decide_true, Bool.not_false, Bool.not_true, Bool.and_true,
      Bool.true_and, Bool.or_eq_true, decide_eq_true_eq]
    rcases hstart with hempty | hslash
    · exact Or.inl (Or.inl (Or.inl hempty))
    · exact Or.inr hslash

theorem all_fieldPaths {low high : ℕ} {paths : List String} (h : viewPaths paths low high = .ok ()) :
    low ≤ paths.length ∧ paths.length ≤ high ∧ paths.Nodup ∧
      (paths.map Js.string).all Client.snapshotFieldPath = true := by
  simp only [viewPaths, bind_eq_ok, exists_unit, reject_ok, forM_eq_ok, not_or, not_lt, not_not] at h
  obtain ⟨⟨hlow, hhigh, hnodup⟩, hfields⟩ := h
  refine ⟨hlow, hhigh, hnodup, ?_⟩
  rw [List.all_map, List.all_eq_true]
  exact fun path hpath ↦ snapshotFieldPath_served (hfields path hpath)

theorem not_outside {low high : ℕ} {value : Option ℕ} :
    ¬ outside low high value ↔ ∀ n ∈ value, low ≤ n ∧ n ≤ high := by
  simp [outside]

/-- Every key of a served record is among the keys it is made of. -/
theorem all_keys {fields : List (String × Option Js)} {allowed : List String}
    (h : ∀ key ∈ fields.map Prod.fst, key ∈ allowed) :
    ((Js.record fields).entries.all fun entry ↦ entry.1 ∈ allowed) = true := by
  rw [List.all_eq_true]
  exact fun entry hentry ↦ decide_eq_true (h entry.1 (mem_entries_record hentry))

theorem validBar_served {view : BarView} (h : view.validate = .ok ()) :
    Client.validBar (servedBar view) = true := by
  simp only [BarView.validate, bind_eq_ok, exists_unit, reject_ok, not_or, not_outside] at h
  obtain ⟨hcategory, hpaths, hlimits, hunit⟩ := h
  obtain ⟨hlow, hhigh, hnodup, hfields⟩ := all_fieldPaths hpaths
  have hcount : (if aggregationName view.aggregation = "count" then view.valuePaths = []
      else view.valuePaths ≠ [] ∧ view.valuePaths.length ≤ 8) := by
    cases haggregation : view.aggregation <;> simp [haggregation, aggregationName] at hlow hhigh ⊢
    · exact hhigh
    all_goals exact ⟨List.ne_nil_of_length_pos hlow, hhigh⟩
  simp only [Client.validBar, Bool.and_eq_true]
  refine ⟨⟨⟨⟨⟨⟨⟨⟨⟨?_, ?_⟩, ?_⟩, ?_⟩, ?_⟩, ?_⟩, ?_⟩, ?_⟩, ?_⟩, ?_⟩
  · exact all_keys (by simp)
  all_goals simp only [servedBar, Js.text, Js.items, Js.optional, get_record_cons, get_record_nil,
    String.reduceEq, if_false, if_true, Option.or_none, Option.or_some, Option.any_some,
    Option.bind_some, items?_texts, text?_string, isOneOf_string, isInteger_ofNat, all_map_iff]
  · exact snapshotFieldPath_served hcategory
  · rw [hfields, map_text?_texts, decide_eq_true (nodup_some.mpr hnodup)]
    simpa [apply_ite] using hcount
  · cases view.aggregation <;> decide
  · cases view.orientation <;> decide
  · cases view.layout <;> decide
  · cases view.order <;> decide
  · omega
  · exact hlimits.2.2
  · intro unit hmem
    rw [hmem] at hunit
    simpa using hunit

theorem validSort_served {sort : TableSort} (h : validateSnapshotField sort.path = .ok ()) :
    Client.validSort (servedSort sort) = true := by
  simp only [Client.validSort, Bool.and_eq_true]
  refine ⟨⟨⟨rfl, all_keys (by simp)⟩, ?_⟩, ?_⟩
  all_goals simp only [servedSort, get_record_cons, get_record_nil, String.reduceEq, if_false,
    if_true, Option.or_none, Option.any_some, isOneOf_string]
  · exact snapshotFieldPath_served h
  · cases sort.direction <;> decide

theorem validColors_served {colors : OrderedMap String String} (hsize : colors.size ≤ 128)
    (h : ∀ entry ∈ colors.entries, entry.1.utf8ByteSize ≤ 256 ∧ containsNull entry.1 = false ∧
      isHexColor entry.2 = true) : Client.validColors (Js.ofMap colors) = true := by
  simp only [Client.validColors, Js.ofMap, Js.entries, Bool.and_eq_true, List.length_map,
    decide_eq_true_eq, List.all_map, List.all_eq_true]
  refine ⟨⟨rfl, hsize⟩, fun entry hentry ↦ ?_⟩
  obtain ⟨hbytes, hnull, hcolor⟩ := h entry hentry
  simp [hbytes, hnull, hcolor]

theorem validStatusGrid_served {view : StatusGridView} (h : view.validate = .ok ()) :
    Client.validStatusGrid (servedStatusGrid view) = true := by
  simp only [StatusGridView.validate, bind_eq_ok, exists_unit, reject_ok, forM_eq_ok, not_or,
    not_outside] at h
  obtain ⟨hids, hstatus, hoptional, hsort, hlimits, hcolors⟩ := h
  obtain ⟨hlow, hhigh, hnodup, hfields⟩ := all_fieldPaths hids
  have hpath {path : Option String}
      (hmem : path ∈ [view.labelPath, view.groupPath, view.valuePath, view.shadePath]) :
      ∀ text ∈ path, Client.snapshotFieldPath (.string text) = true := by
    intro text htext
    apply snapshotFieldPath_served
    apply hoptional
    rw [List.reduceOption_mem_iff]
    exact htext ▸ hmem
  simp only [Client.validStatusGrid, Bool.and_eq_true]
  refine ⟨⟨⟨⟨⟨⟨⟨⟨⟨⟨?_, ?_⟩, ?_⟩, ?_⟩, ?_⟩, ?_⟩, ?_⟩, ?_⟩, ?_⟩, ?_⟩, ?_⟩
  · exact all_keys (by simp)
  all_goals simp only [servedStatusGrid, Js.items, Js.optional, get_record_cons, get_record_nil,
    String.reduceEq, if_false, if_true, Option.or_none, Option.or_some, Option.any_some,
    Option.bind_some, items?_texts, isOneOf_string, isInteger_ofNat, all_map_iff, List.all_cons,
    List.all_nil, Bool.and_true, Bool.and_eq_true]
  · exact snapshotFieldPath_served hstatus
  · rw [hfields, map_text?_texts, decide_eq_true (nodup_some.mpr hnodup)]
    simpa using ⟨List.ne_nil_of_length_pos hlow, hhigh⟩
  · exact ⟨hpath (by simp), hpath (by simp), hpath (by simp), hpath (by simp)⟩
  · intro scale _
    cases scale <;> decide
  · cases view.density <;> decide
  · exact fun sort hmem ↦ validSort_served (hsort sort (by simpa using hmem))
  · exact hlimits.1
  · exact hlimits.2.1
  · exact hlimits.2.2
  · intro colors hmem
    rw [hmem] at hcolors
    simp only [Option.any_some, Bool.or_eq_true, not_or, List.any_eq_true, decide_eq_true_eq,
      not_exists, not_and, Bool.not_eq_true] at hcolors
    refine validColors_served (not_lt.mp hcolors.1) fun entry hentry ↦ ?_
    have hvalid := hcolors.2 entry hentry
    simpa [and_assoc] using hvalid

theorem validSnapshotView_served {view : SnapshotView} (h : view.validate = .ok ()) :
    Client.validSnapshotView (servedView view) = true := by
  cases view with
  | bar view =>
    rw [Client.validSnapshotView, servedView]
    simp [Js.text, servedBar]
    exact validBar_served h
  | statusGrid view =>
    rw [Client.validSnapshotView, servedView]
    simp [Js.text, servedStatusGrid]
    exact validStatusGrid_served h

/-! ## Where the validators differ -/

/-- Trimming in the browser leaves the identifier. -/
def MarkFree (id : String) : Prop :=
  (∀ c ∈ id.toList.head?, c.toNat ≠ 0xfeff) ∧ ∀ c ∈ id.toList.getLast?, c.toNat ≠ 0xfeff

structure GroupReadable (group : UiFilterGroup) : Prop where
  id : MarkFree group.id
  name : Visible group.name
  options : ∀ option ∈ group.options, Visible option.label ∧ Visible option.value

/-- A table's title fits in code units, and its filter groups are readable. -/
structure TableReadable (title : Option String) (query : Option TableQueryPreference) : Prop where
  title : ∀ text ∈ title, codeUnits text ≤ 120
  groups : ∀ preference ∈ query, ∀ groups ∈ preference.filterGroups, ∀ group ∈ groups,
    GroupReadable group

def PanelReadable : PanelSpec → Prop
  | .chart panel => ∀ display ∈ panel.presentation, ∀ title ∈ display.title,
    codeUnits title ≤ 120 ∧ Visible title
  | .metricTable panel => TableReadable panel.title panel.query
  | .snapshotTable panel => TableReadable panel.title panel.query

/-- Names and titles fit in UTF-16 code units, and trimming byte order marks leaves every
identifier and something of every name. -/
structure SetReadable (set : WorkspaceSet) : Prop where
  units : codeUnits set.name ≤ 80
  visible : Visible set.name
  sections : ∀ part ∈ set.sections, codeUnits part.name ≤ 100
  panels : ∀ panel ∈ set.panels, PanelReadable panel

/-! ## Panels -/

theorem forDistinct_ok {α : Type} {id : α → String} {check : List String → α → Except String Unit}
    (hfresh : ∀ seen item, check seen item = .ok () → id item ∉ seen) {seen : List String}
    {list : List α} (h : forDistinct id check seen list = .ok ()) :
    (list.map id).Nodup ∧ (∀ item ∈ list, id item ∉ seen) ∧
      ∀ item ∈ list, ∃ earlier, check earlier item = .ok () := by
  induction list generalizing seen with
  | nil => simp
  | cons item rest ih =>
    simp only [forDistinct, bind_eq_ok, exists_unit] at h
    obtain ⟨hnodup, hnew, hall⟩ := ih h.2
    refine ⟨List.nodup_cons.mpr ⟨fun hmem ↦ ?_, hnodup⟩,
      List.forall_mem_cons.mpr ⟨hfresh seen item h.1, fun other hother ↦ ?_⟩,
      List.forall_mem_cons.mpr ⟨⟨seen, h.1⟩, hall⟩⟩
    · obtain ⟨other, hother, heq⟩ := List.mem_map.mp hmem
      exact hnew other hother (heq ▸ List.mem_cons_self)
    · exact fun hseen ↦ hnew other hother (List.mem_cons_of_mem _ hseen)

theorem groupText_served {text : String} {limit : ℕ} (h : boundedText text limit = true) :
    Client.groupText limit (.string text) = true := by
  simp only [boundedText, Bool.and_eq_true] at h
  simp only [Client.groupText, isTrue_string, Bool.and_eq_true]
  exact ⟨⟨h.1.2, h.1.1⟩, h.2⟩

theorem shownText_served {text : String} {limit : ℕ} (h : boundedText text limit = true) :
    Client.shownText limit (.string text) = true ↔ Visible text := by
  rw [Client.shownText, groupText_served h, Bool.true_and, isTrue_string, decide_eq_true_eq,
    trimmed_ne_empty]

theorem validGroupId_served {id : String} (h : validUiId id = true) :
    Client.validGroupId (.string id) = true ↔ MarkFree id := by
  simp only [validUiId, Bool.and_eq_true, decide_eq_true_eq] at h
  obtain ⟨⟨⟨hempty, hsize⟩, htrim⟩, hcontrol⟩ := h
  have hsize' : id.utf8ByteSize ≤ 256 := hsize
  simp only [Client.validGroupId, isTrue_string, hempty, hsize', hcontrol, decide_true,
    Bool.and_true, Bool.true_and, ne_eq, not_false_eq_true, decide_eq_true_eq]
  exact trimmed_eq_self htrim

theorem validFilterOption_served {option : UiFilterOption}
    (hlabel : boundedText option.label 120 = true) (hvalue : boundedText option.value 4096 = true) :
    Client.validFilterOption (servedOption option) = true ↔
      Visible option.label ∧ Visible option.value := by
  rw [← shownText_served hlabel, ← shownText_served hvalue]
  simp [Client.validFilterOption, servedOption]

theorem text_servedOption (option : UiFilterOption) :
    (servedOption option).text "value" = some option.value := by
  simp [servedOption, Js.text]

theorem text_servedGroup (group : UiFilterGroup) :
    (servedGroup group).text "id" = some group.id := by
  simp [servedGroup, Js.text]

theorem validFilterGroup_served {seen : List String} {group : UiFilterGroup}
    (h : group.validate seen = .ok ()) :
    Client.validFilterGroup (servedGroup group) = true ↔ GroupReadable group := by
  simp only [UiFilterGroup.validate, bind_eq_ok, exists_unit, require_ok] at h
  obtain ⟨⟨hid, -, -, hname, hpath⟩, ⟨hnonempty, hlength, hoptions, hvalues⟩, hselected⟩ := h
  have hnodup : ((group.options.map servedOption).map (Js.text · "value")).Nodup := by
    rw [map_text_served text_servedOption]
    exact nodup_some.mpr hvalues
  have hchosen : ∀ text ∈ group.selected,
      some text ∈ (group.options.map servedOption).map (Js.text · "value") := by
    rw [map_text_served text_servedOption]
    exact fun text htext ↦ List.mem_map_of_mem (hselected text htext)
  have hshown : ((group.options.map servedOption).all Client.validFilterOption = true) ↔
      ∀ option ∈ group.options, Visible option.label ∧ Visible option.value := by
    rw [List.all_map, List.all_eq_true]
    exact forall₂_congr fun option hoption ↦
      validFilterOption_served (hoptions option hoption).2.1 (hoptions option hoption).2.2.2
  have hdisplay : decide (filterDisplayName group.display ∈ ["select", "radio"]) = true := by
    cases group.display <;> decide
  have hgroup : GroupReadable group ↔ MarkFree group.id ∧ Visible group.name ∧
      ∀ option ∈ group.options, Visible option.label ∧ Visible option.value :=
    ⟨fun h ↦ ⟨h.id, h.name, h.options⟩, fun h ↦ ⟨h.1, h.2.1, h.2.2⟩⟩
  rw [hgroup, ← validGroupId_served hid, ← shownText_served hname, ← hshown]
  simp only [Client.validFilterGroup, servedGroup, Js.items, Js.optional, get_record_cons,
    get_record_nil, String.reduceEq, if_false, if_true, Option.or_none, Option.or_some,
    Option.any_some, Option.bind_some, items?_array, isRecord_record, isOneOf_string, hdisplay,
    groupText_served hpath, Bool.and_true, Bool.true_and, Bool.and_eq_true, all_map_iff,
    isTrue_string, decide_eq_true_eq, List.length_map]
  have hfilled : (!(group.options.map servedOption).isEmpty) = true := by simpa using hnonempty
  constructor
  · rintro ⟨⟨hmark, hname⟩, ⟨⟨⟨-, hall⟩, -⟩, -⟩⟩
    exact ⟨hmark, hname, hall⟩
  · rintro ⟨hmark, hname, hall⟩
    exact ⟨⟨hmark, hname⟩, ⟨⟨⟨⟨hfilled, hlength⟩, hall⟩, hnodup⟩, hchosen⟩⟩

theorem validFilterGroups_served {groups : List UiFilterGroup} (hlength : groups.length ≤ 16)
    (h : forDistinct UiFilterGroup.id UiFilterGroup.validate [] groups = .ok ()) :
    Client.validFilterGroups (.array (groups.map servedGroup)) = true ↔
      ∀ group ∈ groups, GroupReadable group := by
  have hfresh : ∀ (seen : List String) (group : UiFilterGroup), group.validate seen = .ok () →
      group.id ∉ seen := by
    intro seen group hgroup
    simp only [UiFilterGroup.validate, bind_eq_ok, exists_unit, require_ok] at hgroup
    exact hgroup.1.2.1
  obtain ⟨hnodup, -, hall⟩ := forDistinct_ok hfresh h
  have hids : ((groups.map servedGroup).map (Js.text · "id")).Nodup := by
    rw [map_text_served text_servedGroup]
    exact nodup_some.mpr hnodup
  have hvalid : ((groups.map servedGroup).all Client.validFilterGroup = true) ↔
      ∀ group ∈ groups, GroupReadable group := by
    rw [List.all_map, List.all_eq_true]
    refine forall₂_congr fun group hgroup ↦ ?_
    obtain ⟨seen, hseen⟩ := hall group hgroup
    exact validFilterGroup_served hseen
  rw [← hvalid, Client.validFilterGroups, items?_array, Option.any_some, List.length_map,
    decide_eq_true hlength, decide_eq_true hids, Bool.true_and, Bool.true_and]

theorem validFilter_served (filter : UiTableFilter) :
    Client.validFilter (servedFilter filter) = true := by
  simp only [Client.validFilter, servedFilter, Js.text, Js.optional, get_record_cons,
    get_record_nil, String.reduceEq, if_false, if_true, Option.or_none, Option.or_some,
    Option.any_some, Option.bind_some, text?_string, isRecord_record, isOneOf_string,
    Bool.and_eq_true, all_map_iff, Option.isSome_some, true_and, isBool_bool, implies_true,
    and_true]
  cases filter.op <;> decide

theorem validQuerySort_served (sort : TableSortPreference) :
    Client.validQuerySort (servedQuerySort sort) = true := by
  simp only [Client.validQuerySort, servedQuerySort, Js.text, get_record_cons, get_record_nil,
    String.reduceEq, if_false, if_true, Option.or_none, Option.any_some, Option.bind_some,
    text?_string, isRecord_record, isOneOf_string, Option.isSome_some, Bool.true_and]
  cases sort.direction <;> decide

theorem validQuery_served {query : TableQueryPreference} (h : query.validate = .ok ()) :
    Client.validQuery (servedQuery query) = true ↔
      ∀ groups ∈ query.filterGroups, ∀ group ∈ groups, GroupReadable group := by
  simp only [TableQueryPreference.validate, bind_eq_ok, exists_unit, require_ok, forM_eq_ok,
    Option.mem_toList] at h
  obtain ⟨-, -, hfilters, hgroups⟩ := h
  simp only [Client.validQuery, servedQuery, Js.items, Js.optional, get_record_cons,
    get_record_nil, String.reduceEq, if_false, if_true, Option.or_none, isRecord_record,
    Bool.true_and, Bool.and_eq_true, all_map_iff, text?_string, Option.isSome_some, implies_true,
    items?_array, Option.any_some, List.length_map, decide_eq_true_eq, true_and]
  have hsort : ∀ sort ∈ query.sort, Client.validQuerySort (servedQuerySort sort) = true :=
    fun sort _ ↦ validQuerySort_served sort
  have hall : ∀ filters ∈ query.filters, filters.length ≤ 32 ∧
      (filters.map servedFilter).all Client.validFilter = true := by
    refine fun filters hmem ↦ ⟨(hfilters filters hmem).1, ?_⟩
    rw [List.all_map, List.all_eq_true]
    exact fun filter _ ↦ validFilter_served filter
  have hcount : (((query.filters.map fun filters ↦ Js.array (filters.map servedFilter)).bind
      items?).map List.length).getD 0 = (query.filters.map List.length).getD 0 := by
    cases query.filters <;> simp
  rw [and_iff_right ⟨hsort, hall⟩, hcount]
  refine forall₂_congr fun groups hmem ↦ ?_
  obtain ⟨⟨hlength, htotal⟩, hdistinct⟩ := hgroups groups hmem
  rw [validFilterGroups_served hlength hdistinct, and_iff_left]
  omega

theorem text_servedColumn (column : ColumnPreference) :
    (servedColumn column).text "id" = some column.id := by
  simp [servedColumn, Js.text]

theorem validColumn_served {seen : List String} {column : ColumnPreference}
    (h : column.validate seen = .ok ()) : Client.validColumn (servedColumn column) = true := by
  simp only [ColumnPreference.validate, bind_eq_ok, exists_unit, require_ok, forM_eq_ok,
    Option.mem_toList] at h
  obtain ⟨-, hwidth, hdecimals⟩ := h
  simp only [Client.validColumn, servedColumn, Js.text, Js.optional, get_record_cons,
    get_record_nil, String.reduceEq, if_false, if_true, Option.or_none, isRecord_record,
    Bool.true_and, Bool.and_eq_true, all_map_iff, text?_string, Option.bind_some,
    Option.isSome_some, isBool_bool, implies_true, isInteger_ofNat, isNumber_number, true_and]
  exact ⟨fun n hn ↦ ⟨Nat.zero_le n, hdecimals n hn⟩, hwidth⟩

theorem validTable_served {title : Option String} {sources : Option (List String)}
    {columns : Option (List ColumnPreference)} {query : Option TableQueryPreference} {value : Js}
    (h : validateTable title sources columns query = .ok ())
    (htitle : value.get "title" = title.map .string)
    (hsources : value.get "sourceIds" = sources.map .texts)
    (hcolumns : value.get "columns" = columns.map fun columns ↦ .array (columns.map servedColumn))
    (hquery : value.get "query" = query.map servedQuery) :
    Client.validTable value = true ↔ TableReadable title query := by
  simp only [validateTable, bind_eq_ok, exists_unit, require_ok, forM_eq_ok, Option.mem_toList] at h
  obtain ⟨-, hids, hlist, hqueries⟩ := h
  have hfresh : ∀ (seen : List String) (column : ColumnPreference), column.validate seen = .ok () →
      column.id ∉ seen := by
    intro seen column hcolumn
    simp only [ColumnPreference.validate, bind_eq_ok, exists_unit, require_ok] at hcolumn
    exact hcolumn.1.2
  simp only [Client.validTable, Js.optional, htitle, hsources, hcolumns, hquery, Bool.and_eq_true,
    all_map_iff, isTrue_string, decide_eq_true_eq, items?_texts, items?_array, Option.any_some,
    List.length_map]
  have hsource : ∀ ids ∈ sources, (ids.length ≤ 256 ∧
      ((ids.map Js.string).all fun id ↦ id.text?.isSome) = true) ∧
        ((ids.map Js.string).map text?).Nodup := by
    intro ids hmem
    obtain ⟨hlength, -, hnodup⟩ := hids ids hmem
    refine ⟨⟨hlength, by simp⟩, ?_⟩
    rw [map_text?_texts]
    exact nodup_some.mpr hnodup
  have hcolumn : ∀ columns' ∈ columns, (columns'.length ≤ 131 ∧
      (columns'.map servedColumn).all Client.validColumn = true) ∧
        ((columns'.map servedColumn).map (Js.text · "id")).Nodup := by
    intro columns' hmem
    obtain ⟨hlength, hdistinct⟩ := hlist columns' hmem
    obtain ⟨hnodup, -, hall⟩ := forDistinct_ok hfresh hdistinct
    refine ⟨⟨hlength, ?_⟩, ?_⟩
    · rw [List.all_map, List.all_eq_true]
      intro column hmem
      obtain ⟨seen, hseen⟩ := hall column hmem
      exact validColumn_served hseen
    · rw [map_text_served text_servedColumn]
      exact nodup_some.mpr hnodup
  constructor
  · rintro ⟨⟨⟨hunits, -⟩, hvalid⟩, -⟩
    exact ⟨hunits, fun preference hmem ↦
      (validQuery_served (hqueries preference hmem)).mp (hvalid preference hmem)⟩
  · rintro ⟨hunits, hgroups⟩
    exact ⟨⟨⟨hunits, hsource⟩, fun preference hmem ↦
      (validQuery_served (hqueries preference hmem)).mpr (hgroups preference hmem)⟩, hcolumn⟩

theorem validPanelSize_served (size : PanelSize) :
    Client.validPanelSize (.string (sizeName size)) = true := by
  rw [Client.validPanelSize, isOneOf_string]
  cases size <;> decide

theorem startsWithSlash_of_path {path : String} (h : boundedPath path false = true) :
    Client.startsWithSlash path = true := by
  simpa [boundedPath, Client.startsWithSlash] using (Bool.and_eq_true_iff.mp h).2

theorem validPaths_served {paths : List String} (h : metricPaths paths = true) :
    Client.validPaths (paths.map .string) = true := by
  simp only [metricPaths, Bool.and_eq_true, decide_eq_true_eq, List.all_eq_true] at h
  obtain ⟨⟨⟨hnonempty, hlength⟩, hall⟩, hnodup⟩ := h
  simp only [Client.validPaths, Bool.and_eq_true, decide_eq_true_eq, List.length_map,
    List.all_map, List.all_eq_true]
  refine ⟨⟨⟨by simpa using hnonempty, hlength⟩, fun path hpath ↦ ?_⟩, ?_⟩
  · exact startsWithSlash_of_path (hall path hpath)
  · rw [map_text?_texts]
    exact nodup_some.mpr hnodup

theorem validPresentation_served {display : ChartPresentation} (h : display.validate = .ok ()) :
    Client.validPresentation (servedPresentation display) = true ↔
      ∀ title ∈ display.title, codeUnits title ≤ 120 ∧ Visible title := by
  simp only [ChartPresentation.validate, bind_eq_ok, exists_unit, require_ok, forM_eq_ok,
    Option.mem_toList] at h
  obtain ⟨-, hwidth, hbounds⟩ := h
  have hkeys : ((servedPresentation display).entries.all fun entry ↦
      entry.1 ∈ ["title", "style", "lineWidth", "points", "legend", "yMin", "yMax"]) = true :=
    all_keys (by simp)
  have hstyle : ∀ style ∈ display.style, decide (styleName style ∈ ["line", "area"]) = true := by
    intro style _
    cases style <;> decide
  have hlegend : ∀ legend ∈ display.legend,
      decide (legendName legend ∈ ["auto", "show", "hide"]) = true := by
    intro legend _
    cases legend <;> decide
  have horder : ((((servedPresentation display).get "yMin").bind number?).any fun low ↦
      (((servedPresentation display).get "yMax").bind number?).any fun high ↦ high ≤ low) =
        false := by
    simp only [servedPresentation, get_record_cons, get_record_nil, String.reduceEq, if_false,
      if_true, Option.or_none]
    cases hlow : display.yMin with
    | none => rfl
    | some low =>
      cases hhigh : display.yMax with
      | none => rfl
      | some high =>
        rw [hlow, hhigh, require_ok] at hbounds
        simpa using hbounds
  rw [Client.validPresentation, hkeys, horder]
  simp only [servedPresentation, Js.optional, get_record_cons, get_record_nil, String.reduceEq,
    if_false, if_true, Option.or_none, isRecord_record, Bool.true_and, Bool.and_eq_true,
    all_map_iff, isTrue_string, isOneOf_string, isNumber_number, isBool_bool, implies_true,
    List.all_cons, List.all_nil, number?_number, Option.isSome_some, Bool.not_false, and_true,
    decide_eq_true_eq] at hstyle hlegend ⊢
  have hwidth' : ∀ item ∈ display.lineWidth, 1 / 2 ≤ item ∧ item ≤ 6 := hwidth
  constructor
  · rintro ⟨⟨⟨htitle, -⟩, -⟩, -⟩ title hmem
    obtain ⟨hvisible, hunits⟩ := htitle title hmem
    exact ⟨hunits, trimmed_ne_empty.mp hvisible⟩
  · intro htitle
    refine ⟨⟨⟨fun title hmem ↦ ?_, hstyle⟩, hwidth'⟩, hlegend⟩
    obtain ⟨hunits, hvisible⟩ := htitle title hmem
    exact ⟨trimmed_ne_empty.mpr hvisible, hunits⟩

theorem validPanel_served {panel : PanelSpec} (h : panel.validate = .ok ()) :
    Client.validPanel (servedPanel panel) = true ↔ PanelReadable panel := by
  cases panel with
  | chart panel =>
    simp only [PanelSpec.validate, bind_eq_ok, exists_unit, require_ok, forM_eq_ok,
      Option.mem_toList] at h
    obtain ⟨hpath, hpaths, hdisplay⟩ := h
    simp only [Client.validPanel, Client.validChartSpec, servedPanel, Js.text, Js.optional,
      get_record_cons, get_record_nil, String.reduceEq, if_false, if_true, Option.or_none,
      Option.any_some, Option.bind_some, text?_string, isRecord_record, Option.isSome_some,
      validPanelSize_served, Option.all_none, isTrue_string, startsWithSlash_of_path hpath,
      Bool.true_and, Bool.and_eq_true, all_map_iff, items?_texts, map_text?_texts,
      decide_eq_true_eq]
    have hmetrics : ∀ metrics ∈ panel.paths, Client.validPaths (metrics.map .string) = true ∧
        some panel.path ∈ metrics.map some := fun metrics hmem ↦
      ⟨validPaths_served (hpaths metrics hmem).1, List.mem_map_of_mem (hpaths metrics hmem).2⟩
    rw [and_iff_right hmetrics]
    exact forall₂_congr fun display hmem ↦ validPresentation_served (hdisplay display hmem)
  | metricTable panel =>
    simp only [PanelSpec.validate, bind_eq_ok, exists_unit, require_ok] at h
    obtain ⟨hpaths, htable⟩ := h
    rw [PanelReadable, ← @validTable_served _ _ _ _ (servedPanel (.metricTable panel)) htable
      (by simp [servedPanel]) (by simp [servedPanel]) (by simp [servedPanel])
      (by simp [servedPanel])]
    generalize hvalid : Client.validTable (servedPanel (.metricTable panel)) = valid
    rw [Client.validPanel, hvalid]
    simp only [servedPanel, Js.text, Js.items, Js.optional, get_record_cons, get_record_nil,
      String.reduceEq, if_false, if_true, Option.or_none, Option.any_some, Option.bind_some,
      text?_string, isRecord_record, Option.isSome_some, validPanelSize_served, Option.all_none,
      items?_texts, validPaths_served hpaths, Option.some.injEq, Bool.true_and, Bool.and_true]
  | snapshotTable panel =>
    simp only [PanelSpec.validate, bind_eq_ok, exists_unit, require_ok, forM_eq_ok,
      Option.mem_toList] at h
    obtain ⟨hpath, htable, hview⟩ := h
    rw [PanelReadable, ← @validTable_served _ _ _ _ (servedPanel (.snapshotTable panel)) htable
      (by simp [servedPanel]) (by simp [servedPanel]) (by simp [servedPanel])
      (by simp [servedPanel])]
    generalize hvalid : Client.validTable (servedPanel (.snapshotTable panel)) = valid
    rw [Client.validPanel, hvalid]
    have hstart : (panel.path = "" || Client.startsWithSlash panel.path) = true := by
      simpa [boundedPath, Client.startsWithSlash] using (Bool.and_eq_true_iff.mp hpath).2
    have hviews : (panel.view.map servedView).all Client.validSnapshotView = true :=
      all_map_iff.mpr fun view hmem ↦ validSnapshotView_served (hview view hmem)
    simp only [servedPanel, Js.text, Js.optional, get_record_cons, get_record_nil,
      String.reduceEq, if_false, if_true, Option.or_none, Option.any_some, Option.bind_some,
      text?_string, isRecord_record, Option.isSome_some, validPanelSize_served,
      Option.some.injEq, decide_true, Bool.true_and, Bool.and_true, hstart, hviews]

/-! ## Documents -/

theorem text_servedSection (part : SectionSpec) : (servedSection part).text "id" = some part.id := by
  simp [servedSection, Js.text]

theorem validSection_served (part : SectionSpec) :
    Client.validSection (servedSection part) = true ↔ codeUnits part.name ≤ 100 := by
  simp [Client.validSection, servedSection, Js.text]

theorem text_servedPanel (panel : PanelSpec) :
    (servedPanel panel).text "id" = some panel.identity.1 ∧
      (servedPanel panel).text "sectionId" = some panel.identity.2 := by
  cases panel <;> simp [servedPanel, Js.text, PanelSpec.identity]

theorem validLayout_served {set : WorkspaceSet} (hsome : 1 ≤ set.sections.length)
    (hsections : set.sections.length ≤ 24) (hpanels : set.panels.length ≤ 24)
    (hparts : forDistinct SectionSpec.id SectionSpec.validate [] set.sections = .ok ())
    (hlist : forDistinct (fun panel ↦ panel.identity.1) set.validatePanel [] set.panels = .ok ()) :
    Client.validLayout (servedSet set) = true ↔
      (∀ part ∈ set.sections, codeUnits part.name ≤ 100) ∧
        ∀ panel ∈ set.panels, PanelReadable panel := by
  have hfreshPart : ∀ (seen : List String) (part : SectionSpec), part.validate seen = .ok () →
      part.id ∉ seen := by
    intro seen part hpart
    simp only [SectionSpec.validate, bind_eq_ok, exists_unit, require_ok] at hpart
    exact hpart.1.2
  have hfreshPanel : ∀ (seen : List String) (panel : PanelSpec),
      set.validatePanel seen panel = .ok () → panel.identity.1 ∉ seen := by
    intro seen panel hpanel
    simp only [WorkspaceSet.validatePanel, bind_eq_ok, exists_unit, require_ok] at hpanel
    exact hpanel.1.2
  obtain ⟨hpartIds, -, -⟩ := forDistinct_ok hfreshPart hparts
  obtain ⟨hpanelIds, -, hall⟩ := forDistinct_ok hfreshPanel hlist
  have hnames := map_text_served text_servedSection set.sections
  have hidentities := map_text_served (fun panel ↦ (text_servedPanel panel).1) set.panels
  have hshown : ((set.sections.map servedSection).all Client.validSection = true) ↔
      ∀ part ∈ set.sections, codeUnits part.name ≤ 100 := by
    rw [List.all_map, List.all_eq_true]
    exact forall₂_congr fun part _ ↦ validSection_served part
  have hplaced : (((set.panels.map servedPanel).all fun panel ↦ Client.validPanel panel &&
      panel.text "sectionId" ∈ (set.sections.map SectionSpec.id).map some) = true) ↔
        ∀ panel ∈ set.panels, PanelReadable panel := by
    rw [List.all_map, List.all_eq_true]
    refine forall₂_congr fun panel hmem ↦ ?_
    obtain ⟨seen, hseen⟩ := hall panel hmem
    simp only [WorkspaceSet.validatePanel, bind_eq_ok, exists_unit, require_ok] at hseen
    obtain ⟨-, hknown, hvalid⟩ := hseen
    rw [Function.comp_apply, (text_servedPanel panel).2, Bool.and_eq_true,
      validPanel_served hvalid, decide_eq_true_eq]
    exact and_iff_left (List.mem_map_of_mem hknown)
  have hfilled : (!(set.sections.map servedSection).isEmpty) = true := by
    simpa using List.ne_nil_of_length_pos hsome
  rw [← hshown, ← hplaced]
  simp only [Client.validLayout, servedSet, Js.items, get_record_cons, get_record_nil,
    String.reduceEq, if_false, if_true, Option.or_none, Option.any_some, Option.bind_some,
    items?_array, isRecord_record, Bool.true_and, hfilled, List.length_map, hsections, hpanels,
    decide_true, hnames, hidentities, decide_eq_true (nodup_some.mpr hpartIds),
    decide_eq_true (nodup_some.mpr hpanelIds), Bool.and_true, Bool.and_eq_true]

theorem validSet_served {earlier : List WorkspaceSet} {set : WorkspaceSet}
    (h : set.validate earlier = .ok ()) :
    Client.validSet (servedSet set) = true ↔ SetReadable set := by
  simp only [WorkspaceSet.validate, bind_eq_ok, exists_unit, require_ok] at h
  obtain ⟨⟨hid, -⟩, -, -, -, ⟨hsome, hsections, hpanels⟩, hparts, hlist⟩ := h
  have hlayout := validLayout_served hsome hsections hpanels hparts hlist
  have hnonempty : set.id ≠ "" := by
    simp only [validUiId, Bool.and_eq_true, decide_eq_true_eq] at hid
    exact hid.1.1.1
  have hset : SetReadable set ↔ (Visible set.name ∧ codeUnits set.name ≤ 80) ∧
      (∀ part ∈ set.sections, codeUnits part.name ≤ 100) ∧
        ∀ panel ∈ set.panels, PanelReadable panel :=
    ⟨fun h ↦ ⟨⟨h.visible, h.units⟩, h.sections, h.panels⟩,
      fun h ↦ ⟨h.1.2, h.1.1, h.2.1, h.2.2⟩⟩
  rw [hset, ← hlayout, ← trimmed_ne_empty]
  generalize hvalid : Client.validLayout (servedSet set) = valid
  rw [Client.validSet, hvalid]
  simp [servedSet, Js.text, hnonempty]

theorem validateSets_ok {earlier sets : List WorkspaceSet} (h : validateSets earlier sets = .ok ()) :
    ∀ set ∈ sets, ∃ others, set.validate others = .ok () := by
  induction sets generalizing earlier with
  | nil => simp
  | cons set rest ih =>
    simp only [validateSets, bind_eq_ok, exists_unit] at h
    exact List.forall_mem_cons.mpr ⟨⟨earlier, h.1⟩, ih h.2⟩

theorem validWorkspaceDocument_served {input : SaveWorkspaces} (h : input.validate = .ok ())
    {revision : ℕ} (hrevision : revision ≤ MAX_UI_REVISION) :
    Client.validWorkspaceDocument (servedWorkspaces ⟨revision, input.sets⟩) = true ↔
      ∀ set ∈ input.sets, SetReadable set := by
  have hnodup := SaveWorkspaces.validate_nodup h
  simp only [SaveWorkspaces.validate, bind_eq_ok, exists_unit, require_ok] at h
  obtain ⟨-, -, hlength, hsets⟩ := h
  have hids : ((input.sets.map servedSet).map (Js.text · "id")).Nodup := by
    have htext (set : WorkspaceSet) : (servedSet set).text "id" = some set.id := by
      simp [servedSet, Js.text]
    rw [map_text_served htext]
    exact nodup_some.mpr hnodup
  have hall : ((input.sets.map servedSet).all Client.validSet = true) ↔
      ∀ set ∈ input.sets, SetReadable set := by
    rw [List.all_map, List.all_eq_true]
    refine forall₂_congr fun set hmem ↦ ?_
    obtain ⟨others, hothers⟩ := validateSets_ok hsets set hmem
    exact validSet_served hothers
  have hlength' : input.sets.length ≤ 100 := hlength
  rw [← hall]
  simp only [Client.validWorkspaceDocument, servedWorkspaces, Client.revision, Js.items,
    get_record_cons, get_record_nil, String.reduceEq, if_false, if_true, Option.or_none,
    Option.any_some, Option.bind_some, items?_array, isRecord_record, List.length_map, hlength',
    decide_true, decide_eq_true hids, Bool.true_and, Bool.and_true, Bool.and_eq_true,
    isInteger_ofNat, Nat.zero_le, hrevision, true_and]

theorem validBrowserPreferences_served {input : SaveBrowserPreferences}
    (h : input.validate = .ok ()) {revision : ℕ} (hrevision : revision ≤ MAX_UI_REVISION) :
    Client.validBrowserPreferences (servedPreferences ⟨revision, input.theme, input.sidebarWidth,
      input.selected, input.runColors⟩) = true := by
  simp only [SaveBrowserPreferences.validate, bind_eq_ok, exists_unit, require_ok] at h
  obtain ⟨-, -, hwidth, -, -, hsize, hcolors⟩ := h
  have hsize' : input.runColors.entries.length ≤ 1000 := hsize
  have htheme : decide (themeName input.theme ∈ ["light", "dark"]) = true := by
    cases input.theme <;> decide
  simp only [Client.validBrowserPreferences, servedPreferences, Client.revision, get_record_cons,
    get_record_nil, String.reduceEq, if_false, if_true, Option.or_none, Option.any_some,
    isRecord_record, Bool.true_and, Bool.and_eq_true, isInteger_ofNat, Nat.zero_le, hrevision,
    true_and, isOneOf_string, htheme, hwidth]
  simp only [Js.ofMap, Js.entries, Js.isRecord, List.length_map, List.all_map, List.all_eq_true,
    decide_eq_true_eq, true_and]
  exact ⟨fun _ _ ↦ rfl, hsize', fun entry hentry ↦ (hcolors entry hentry).2⟩

/-! ## Agreement -/

/-- A document the server accepts passes the browser's validator exactly where its texts fit in
code units and have no byte order marks to trim; preferences always do. -/
theorem accepted_settings_read (revision : ℕ) (hrevision : revision ≤ MAX_UI_REVISION) :
    (∀ input : SaveWorkspaces, input.validate = .ok () →
      (Client.validWorkspaceDocument (servedWorkspaces ⟨revision, input.sets⟩) = true ↔
        ∀ set ∈ input.sets, SetReadable set)) ∧
    ∀ input : SaveBrowserPreferences, input.validate = .ok () →
      Client.validBrowserPreferences (servedPreferences ⟨revision, input.theme,
        input.sidebarWidth, input.selected, input.runColors⟩) = true :=
  ⟨fun _ h ↦ validWorkspaceDocument_served h hrevision,
    fun _ h ↦ validBrowserPreferences_served h hrevision⟩

def sampleNamed (name : String) : SaveWorkspaces :=
  ⟨0, "mutation_1", [⟨"set_1", name, "experiment_1", [], [⟨"main", "", false⟩]⟩]⟩

def samplePreferences : SaveBrowserPreferences :=
  ⟨0, "mutation_1", .dark, 280, .ofList [("experiment_1", "set_1")], .ofList [("run_1", "#12aB9f")]⟩

theorem accepted_settings_read_sample :
    Client.validWorkspaceDocument (servedWorkspaces ⟨1, (sampleNamed "Größe 😀").sets⟩) = true ∧
      Client.validBrowserPreferences (servedPreferences ⟨1, .dark, 280,
        samplePreferences.selected, samplePreferences.runColors⟩) = true := by
  obtain ⟨hworkspaces, hbrowser⟩ := accepted_settings_read 1 (by decide)
  refine ⟨(hworkspaces (sampleNamed "Größe 😀") (by decide +kernel)).mpr ?_,
    hbrowser samplePreferences (by decide +kernel)⟩
  intro set hmem
  obtain rfl := List.mem_singleton.mp hmem
  exact ⟨by decide +kernel, ⟨'G', by decide +kernel, by decide +kernel⟩,
    List.forall_mem_singleton.mpr (by decide +kernel), List.forall_mem_nil _⟩

/-- Forty-one characters of two code units each, and a name that is a byte order mark. -/
theorem accepted_names_unreadable :
    (sampleNamed (String.ofList (List.replicate 41 '😀'))).validate = .ok () ∧
      Client.validWorkspaceDocument (servedWorkspaces
        ⟨1, (sampleNamed (String.ofList (List.replicate 41 '😀'))).sets⟩) = false ∧
      (sampleNamed (String.ofList ['\ufeff'])).validate = .ok () ∧
      Client.validWorkspaceDocument (servedWorkspaces
        ⟨1, (sampleNamed (String.ofList ['\ufeff'])).sets⟩) = false := by
  refine ⟨?_, ?_, ?_, ?_⟩ <;> decide +kernel

end Rvx.Web
