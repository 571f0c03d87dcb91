import Rvx.Tables.Loading
import Rvx.Tables.Search

/-!
# What a scan matches

A record is kept if its cells satisfy all filters and some part of it shows the searched text.
Numbers are compared by their values.  Columns are looked up by decoded components, which finds what
their pointers refer to.
-/

namespace Rvx.Tables

open Core Engine Check

/-! ## Columns and pointers -/

/-- A path that names a column. -/
def Resolvable (path : String) : Prop :=
  path = "$key" ∨ path = "$value" ∨ path = "" ∨ path.toList.head? = some '/'

theorem resolvable_of_validateColumn {path : String} (h : validateColumn path = .ok ()) :
    Resolvable path := by
  unfold validateColumn at h
  split_ifs at h with hname
  · exact hname.imp_right Or.inl
  · simp only [validatePointer, validateSnapshotPointer, mapError_eq_ok, bind_eq_ok, reject_ok,
      not_or, not_and, not_not] at h
    obtain ⟨_, ⟨-, hslash⟩, -⟩ := h
    exact Or.inr (Or.inr (or_iff_not_imp_left.mpr hslash))

theorem resolvable_escapeKey (key : String) : Resolvable ("/" ++ escapeKey key) := by
  refine Or.inr (Or.inr (Or.inr ?_))
  rw [String.toList_append]
  rfl

theorem ofDigitChars_digits (digits : List (Fin 10)) :
    Nat.ofDigitChars 10 (digits.map digitChar) 0 = digitsValue digits := by
  unfold digitsValue
  generalize 0 = start
  induction digits generalizing start with
  | nil => exact Nat.ofDigitChars_nil
  | cons digit rest ih =>
    rw [List.map_cons, digitChar, Nat.ofDigitChars_cons_digitChar_of_lt_ten digit.isLt,
      List.foldl_cons]
    exact ih _

/-- Without a sign, an index is read from its digits. -/
theorem parseUsize_plain {token : List Char} (hplus : token.head? ≠ some '+') :
    FieldPath.parseUsize token = match takeDigits token with
      | (first :: others, []) =>
        if digitsValue (first :: others) < 2 ^ 64 then some (digitsValue (first :: others)) else none
      | _ => none := by
  cases token with
  | nil => rfl
  | cons c rest =>
    have hc : c ≠ '+' := by simpa using hplus
    have hsign : ∀ others, c :: rest = '+' :: others → False :=
      fun others heq ↦ hc (List.cons.inj heq).1
    rw [FieldPath.parseUsize]
    all_goals first | exact hsign | rfl

theorem parseUsize_eq {token : List Char} (hplus : token.head? ≠ some '+') :
    FieldPath.parseUsize token =
      if token ≠ [] ∧ token.all Char.isDigit ∧ Nat.ofDigitChars 10 token 0 < 2 ^ 64 then
        some (Nat.ofDigitChars 10 token 0)
      else none := by
  obtain ⟨htoken, hrest⟩ := takeDigits_spec token
  rw [parseUsize_plain hplus]
  generalize takeDigits token = taken at htoken hrest ⊢
  obtain ⟨digits, rest⟩ := taken
  subst htoken
  cases rest with
  | cons c rest =>
    have hc : c.isDigit = false := by simpa using hrest
    rw [if_neg (by simp [hc])]
    cases digits <;> rfl
  | nil =>
    cases digits with
    | nil => rfl
    | cons first others =>
      rw [List.append_nil, ofDigitChars_digits]
      simp [isDigit_digitChar]

/-- A component selects what a token of a pointer refers to. -/
theorem step_eq (value : Value) (token : List Char) :
    FieldPath.step value (unescapeToken token) = value.pointerStep token := by
  cases value with
  | array items =>
    rw [FieldPath.step, Value.pointerStep, parseIndex]
    generalize (unescapeToken token) = part
    have hzero (hhead : part.toList.head? = some '0') :
        1 < part.utf8ByteSize ↔ part.toList.length ≠ 1 := by
      obtain ⟨rest, hrest⟩ := List.head?_eq_some_iff.mp hhead
      have hsize : part.utf8ByteSize = String.utf8Len rest + 1 := by
        rw [← String.utf8Len_toList, hrest, String.utf8Len_cons]
        rfl
      rw [hsize, hrest, List.length_cons]
      cases rest with
      | nil => simp
      | cons c rest =>
        have hpos := c.utf8Size_pos
        rw [String.utf8Len_cons, List.length_cons]
        omega
    by_cases hplus : part.toList.head? = some '+'
    · rw [if_neg (by simp [hplus]), if_pos (Or.inl hplus)]
      rfl
    by_cases hleading : part.toList.head? = some '0' ∧ part.toList.length ≠ 1
    · rw [if_neg, if_pos (Or.inr hleading)]
      · rfl
      · rintro ⟨-, hnot⟩
        exact hnot ⟨hleading.1, (hzero hleading.1).mpr hleading.2⟩
    · rw [if_pos, if_neg (by simp only [hplus, hleading, or_self, not_false_eq_true]),
        parseUsize_eq hplus]
      · refine ⟨hplus, fun hlong ↦ hleading ⟨hlong.1, (hzero hlong.1).mp hlong.2⟩⟩
  | _ => rfl

theorem cell_new {path : String} (hpath : Resolvable path) (record : Record) :
    (FieldPath.new path).cell record = record.cell path := by
  unfold FieldPath.new Record.cell
  by_cases hkey : path = "$key"
  · rw [if_pos hkey, if_pos hkey, FieldPath.cell]
  by_cases hvalue : path = "$value"
  · rw [if_neg hkey, if_pos hvalue, if_neg hkey, if_pos hvalue, FieldPath.cell]
  rw [if_neg hkey, if_neg hvalue, if_neg hkey, if_neg hvalue, Value.pointer]
  by_cases hempty : path = ""
  · rw [if_pos hempty, if_pos hempty]
    rfl
  have hslash : path.toList.head? = some '/' :=
    ((hpath.resolve_left hkey).resolve_left hvalue).resolve_left hempty
  obtain ⟨rest, hrest⟩ := List.head?_eq_some_iff.mp hslash
  have htokens : Value.pointerTokens path = rest.splitOn '/' := by
    simp [Value.pointerTokens, hrest, List.splitOn_cons_eq_if_modifyHead]
  rw [if_neg hempty, if_neg hempty, if_pos hslash, FieldPath.cell, htokens, hrest, List.tail_cons]
  congr 1
  generalize record.value = value
  generalize rest.splitOn '/' = tokens
  induction tokens generalizing value with
  | nil => rfl
  | cons token tokens ih =>
    rw [List.map_cons, List.foldlM_cons, List.foldlM_cons, step_eq]
    exact congrArg _ (funext ih)

/-! ## Texts within the budget -/

theorem WorkBudget.text_le {bytes : ℕ} {budget budget' : WorkBudget} {value : Unit}
    (h : (WorkBudget.text bytes).Returns budget value budget') : bytes ≤ MAX_TEXT_WORK := by
  simp only [WorkBudget.text, Script.returns_bind, Script.returns_modify, Script.returns_read,
    Script.returns_check, Check.reject_ok] at h
  obtain ⟨_, _, rfl, _, _, ⟨rfl, rfl⟩, hbound, -⟩ := h
  dsimp only at hbound
  omega

/-! ## Filters -/

/-- The leaves a cell is searched in. -/
def Cell.leaves : Cell → List Leaf
  | .missing => []
  | .key text => [.word text]
  | .value child => Tables.leaves child

/-- Some leaf shows the text, both in lower case. -/
def finds (lower : String → String) (search : String) (found : List Leaf) : Bool :=
  found.any fun leaf ↦ includes (leaf.shown lower) (lower search)

/-- The number at a cell and the one a text writes compare so. -/
def comparesTo (wanted : Ordering) (text : String) : Cell → Bool
  | .value (.number number) => (parseNumber text).any fun operand ↦
      Ord.compare number.toRat operand.toRat = wanted
  | _ => false

/-- The scalar at a cell is the one a text writes. -/
def isWritten (text : String) : Cell → Bool
  | .missing | .value (.array _) | .value (.object _) => false
  | .key other | .value (.string other) => other = text
  | .value .null => text = "null"
  | .value (.bool value) => text = String.ofList (Value.bool value).print
  | .value (.number number) => comparesTo .eq text (.value (.number number))

/-- The cell satisfies the filter. -/
def satisfies (lower : String → String) (filter : TableFilter) (cell : Cell) : Bool :=
  match filter.op with
  | .contains => finds lower filter.value cell.leaves
  | .eq => isWritten filter.value cell
  | .gt => comparesTo .gt filter.value cell
  | .lt => comparesTo .lt filter.value cell

/-- The record satisfies all filters and shows the searched text. -/
def keeps (lower : String → String) (request : TableRowsRequest) (record : Record) : Bool :=
  (request.filters.all fun filter ↦ satisfies lower filter (record.cell filter.path)) &&
    request.search.all fun text ↦
      text = "" || finds lower text (.word record.key :: leaves record.value)

theorem finds_iff {lower : String → String} {search : String} {found : List Leaf} :
    finds lower search found = true ↔ Finds lower (lower search) found := List.any_eq_true

theorem isWhitespace_of_isJsonSpace {c : Char} (h : isJsonSpace c = true) : isWhitespace c = true := by
  simp only [isJsonSpace, Bool.or_eq_true, decide_eq_true_eq] at h
  obtain ((rfl | rfl) | rfl) | rfl := h <;> decide

theorem not_isWhitespace {number : Number} {c : Char} (hc : c ∈ number.chars) :
    isWhitespace c = false := by
  obtain hdigit | hplain | ⟨rfl, -⟩ := mem_chars hc
  · have hbounds : 48 ≤ c.toNat ∧ c.toNat ≤ 57 := Char.isDigit_iff_toNat.mp hdigit
    rw [← Bool.not_eq_true]
    unfold isWhitespace
    simp only [Bool.or_eq_true, Bool.and_eq_true, decide_eq_true_eq]
    omega
  · have hall : ∀ c ∈ ['-', '+', '.', 'e'], isWhitespace c = false :=
      List.all_iff_forall_prop.mp (by decide)
    exact hall c hplain
  · decide

/-- What is left of a text without some characters around it has none of more characters. -/
theorem strip_eq {p q : Char → Bool} (hpq : ∀ c, q c = true → p c = true) {text core : List Char}
    (hcore : core = ((text.dropWhile q).reverse.dropWhile q).reverse)
    (hclean : ∀ c ∈ core, p c = false) :
    ((text.dropWhile p).reverse.dropWhile p).reverse = core := by
  have hdropped {list : List Char} : ∀ c ∈ list.takeWhile q, p c = true := fun c hc ↦
    hpq c (List.mem_takeWhile_imp hc)
  have htext : text = text.takeWhile q ++
      (core ++ ((text.dropWhile q).reverse.takeWhile q).reverse) := by
    rw [hcore, ← List.reverse_append, List.takeWhile_append_dropWhile, List.reverse_reverse,
      List.takeWhile_append_dropWhile]
  rw [htext, List.dropWhile_append_of_pos hdropped]
  cases core with
  | nil =>
    have hnone : ((text.dropWhile q).reverse.takeWhile q).reverse.dropWhile p = [] :=
      List.dropWhile_eq_nil_iff.mpr fun c hc ↦ hdropped c (List.mem_reverse.mp hc)
    rw [List.nil_append, hnone]
    rfl
  | cons c rest =>
    have hhead : p c = false := hclean c List.mem_cons_self
    have hlast : (c :: rest).reverse.dropWhile p = (c :: rest).reverse := by
      cases hreverse : (c :: rest).reverse with
      | nil => rfl
      | cons last others =>
        have hmem : last ∈ c :: rest := List.mem_reverse.mp (hreverse ▸ List.mem_cons_self)
        exact List.dropWhile_cons_of_neg (by simp [hclean last hmem])
    rw [List.cons_append, List.dropWhile_cons_of_neg (by simp [hhead]), ← List.cons_append,
      List.reverse_append, List.reverse_reverse, List.dropWhile_append_of_pos hdropped, hlast,
      List.reverse_reverse]

/-- An operand without its white space is the token of its number. -/
theorem trim_of_parseNumber {text : String} {number : Number} (h : parseNumber text = some number) :
    (trim text).toList = number.chars := by
  rw [trim, String.toList_ofList]
  exact strip_eq (fun _ ↦ isWhitespace_of_isJsonSpace) (Number.chars_of_read h)
    fun _ hc ↦ not_isWhitespace hc

theorem length_of_parseNumber {text : String} {number : Number}
    (h : parseNumber text = some number) : number.chars.length ≤ text.utf8ByteSize := by
  have hstart := (List.dropWhile_suffix (l := text.toList) isJsonSpace).length_le
  have hend := (List.dropWhile_suffix (l := (text.toList.dropWhile isJsonSpace).reverse)
    isJsonSpace).length_le
  have hbytes := length_le_utf8Len text.toList
  rw [List.length_reverse] at hend
  rw [String.utf8Len_toList] at hbytes
  rw [Number.chars_of_read h, List.length_reverse]
  omega

theorem compare_new {number operand : Number} (h : number.chars.length < 2 ^ 63)
    (h' : operand.chars.length < 2 ^ 63) :
    (NumericKey.new number).compare (NumericKey.new operand) =
      Ord.compare number.toRat operand.toRat :=
  NumericKey.compare_denotes (NumericKey.new_denotes h) (NumericKey.new_denotes h')

section Filters

variable {runtime : Runtime} {filter : TableFilter} {compiled : CompiledFilter} {cell : Cell}
  {answer : Bool} {budget budget' : WorkBudget}

theorem compiled_new (h : CompiledFilter.new runtime filter = .ok compiled) :
    compiled = ⟨filter, (parseNumber filter.value).map NumericKey.new,
      runtime.toLowercase filter.value⟩ := by
  simp only [CompiledFilter.new, bind_eq_ok, pure_eq_ok] at h
  obtain ⟨_, -, _, -, rfl⟩ := h
  rw [CompiledFilter.mk.injEq]
  refine ⟨rfl, Option.map_congr fun number hnumber ↦ ?_, rfl⟩
  rw [trim_of_parseNumber hnumber]
  rfl

theorem contains_eq {search : String}
    (h : (contains runtime (runtime.toLowercase search) cell).Returns budget answer budget') :
    answer = finds runtime.toLowercase search cell.leaves := by
  rw [Bool.eq_iff_iff, finds_iff]
  cases cell with
  | missing =>
    simp only [contains, Script.returns_bind, Script.returns_pure] at h
    obtain ⟨_, _, -, rfl, -⟩ := h
    simp [Cell.leaves, Finds]
  | key text => exact containsKey_spec h
  | value child => exact containsValue_spec child h

theorem compareOperand_eq {wanted : Ordering} {number : Number}
    (hcompiled : compiled = ⟨filter, (parseNumber filter.value).map NumericKey.new,
      runtime.toLowercase filter.value⟩)
    (h : (compiled.compareOperand wanted number).Returns budget answer budget') :
    answer = comparesTo wanted filter.value (.value (.number number)) := by
  simp only [CompiledFilter.compareOperand, Script.returns_bind, Script.returns_pure] at h
  obtain ⟨_, _, htext, rfl, -⟩ := h
  have hbytes := WorkBudget.text_le htext
  rw [hcompiled] at hbytes ⊢
  dsimp only at hbytes ⊢
  have hlength := length_le_utf8Len number.chars
  unfold MAX_TEXT_WORK at hbytes
  rw [comparesTo, Option.any_map]
  cases hoperand : parseNumber filter.value with
  | none => rfl
  | some operand =>
    have hoperandLength := length_of_parseNumber hoperand
    rw [Option.any_some, Option.any_some, compare_new (by omega) (by omega)]

theorem compares_eq {wanted : Ordering}
    (hcompiled : compiled = ⟨filter, (parseNumber filter.value).map NumericKey.new,
      runtime.toLowercase filter.value⟩)
    (h : (compiled.compares wanted cell).Returns budget answer budget') :
    answer = comparesTo wanted filter.value cell := by
  unfold CompiledFilter.compares at h
  split at h
  · exact compareOperand_eq hcompiled h
  · rename_i hnumber
    obtain ⟨rfl, -⟩ := Script.returns_pure.mp h
    unfold comparesTo
    split
    · exact absurd rfl (hnumber _)
    · rfl

theorem equals_eq
    (hcompiled : compiled = ⟨filter, (parseNumber filter.value).map NumericKey.new,
      runtime.toLowercase filter.value⟩)
    (h : (compiled.equals cell).Returns budget answer budget') :
    answer = isWritten filter.value cell := by
  have hfilter : compiled.filter = filter := congrArg CompiledFilter.filter hcompiled
  have htext {text : String} (h : (compiled.equalsText text).Returns budget answer budget') :
      answer = decide (text = filter.value) := by
    simp only [CompiledFilter.equalsText, Script.returns_bind, Script.returns_pure] at h
    obtain ⟨_, _, -, rfl, -⟩ := h
    rw [hfilter]
  cases cell with
  | missing => exact (Script.returns_pure.mp h).1.symm
  | key text => exact htext h
  | value child =>
    cases child with
    | null =>
      obtain ⟨rfl, -⟩ := Script.returns_pure.mp h
      rw [hfilter]
      rfl
    | bool value =>
      obtain ⟨rfl, -⟩ := Script.returns_pure.mp h
      rw [hfilter]
      rfl
    | string text => exact htext h
    | array items => simp [CompiledFilter.equals] at h
    | object entries => simp [CompiledFilter.equals] at h
    | number number =>
      unfold CompiledFilter.equals at h
      dsimp only at h
      split_ifs at h with hsome
      · exact compareOperand_eq hcompiled h
      · obtain ⟨rfl, -⟩ := Script.returns_pure.mp h
        rw [hcompiled] at hsome
        have hnone : parseNumber filter.value = none := by simpa using hsome
        rw [isWritten, comparesTo, hnone]
        rfl

theorem matchesCell_eq (hcompiled : CompiledFilter.new runtime filter = .ok compiled)
    (h : (compiled.matchesCell runtime cell).Returns budget answer budget') :
    answer = satisfies runtime.toLowercase filter cell := by
  have hnew := compiled_new hcompiled
  obtain ⟨_, _, -, h⟩ := Script.returns_bind.mp h
  have hop : compiled.filter.op = filter.op := congrArg (fun c ↦ c.filter.op) hnew
  unfold satisfies
  rw [hop] at h
  cases hfilter : filter.op with
  | contains =>
    rw [hfilter] at h
    have hneedle : compiled.contains = runtime.toLowercase filter.value :=
      congrArg CompiledFilter.contains hnew
    rw [hneedle] at h
    exact contains_eq h
  | eq =>
    rw [hfilter] at h
    exact equals_eq hnew h
  | gt =>
    rw [hfilter] at h
    exact compares_eq hnew h
  | lt =>
    rw [hfilter] at h
    exact compares_eq hnew h

end Filters

/-! ## Records -/

/-- The records of a snapshot at a path. -/
def snapshotRecords (path : String) (snapshot : StoredSnapshot) : List Record :=
  (snapshot.snapshot.state.value.pointer path).elim [] (recordsOf snapshot)

/-- The records of some snapshots at a path. -/
def tableRecords (path : String) (snapshots : List StoredSnapshot) : List Record :=
  snapshots.flatMap (snapshotRecords path)

/-- What a response says of the source of a snapshot. -/
def snapshotEvidence (path : String) (sources : List Source) (snapshot : StoredSnapshot) :
    List TableSource :=
  (sources.find? fun source ↦ source.id = snapshot.sourceId).toList.map fun source ↦
    tableSource snapshot source
      ((collectionLen (snapshot.snapshot.state.value.pointer path)).getD 0)

section Scan

variable {runtime : Runtime} {request : TableRowsRequest} {mode : ScanMode} {sources : List Source}
  {record : Record} {compiled : List (CompiledFilter × FieldPath)} {answer : Bool}
  {budget budget' : WorkBudget}

theorem matchesFilters_eq {filters : List TableFilter}
    (hcompiled : (filters.mapM fun filter ↦ do
      return (← CompiledFilter.new runtime filter, FieldPath.new filter.path)) = .ok compiled)
    (hpaths : ∀ filter ∈ filters, Resolvable filter.path)
    (h : (matchesFilters runtime record compiled).Returns budget answer budget') :
    answer = filters.all fun filter ↦
      satisfies runtime.toLowercase filter (record.cell filter.path) := by
  induction filters generalizing compiled budget with
  | nil =>
    rw [List.mapM_nil, pure_eq_ok] at hcompiled
    subst hcompiled
    exact (Script.returns_pure.mp h).1.symm
  | cons filter rest ih =>
    rw [List.forall_mem_cons] at hpaths
    simp only [List.mapM_cons, bind_eq_ok, pure_eq_ok] at hcompiled
    obtain ⟨_, ⟨first, hfirst, rfl⟩, others, hothers, rfl⟩ := hcompiled
    rw [matchesFilters] at h
    obtain ⟨found, middle, hfound, h⟩ := Script.returns_bind.mp h
    have hfirst := matchesCell_eq hfirst hfound
    rw [cell_new hpaths.1] at hfirst
    rw [List.all_cons, ← hfirst]
    cases found with
    | true => exact ih hothers hpaths.2 h
    | false => exact (Script.returns_pure.mp h).1.symm

theorem matchesSearch_eq
    (h : (matchesSearch runtime ((request.search.filter fun text ↦ text ≠ "").map
      runtime.toLowercase) record).Returns budget answer budget') :
    answer = request.search.all fun text ↦
      text = "" || finds runtime.toLowercase text (.word record.key :: leaves record.value) := by
  cases hsearch : request.search with
  | none =>
    rw [hsearch] at h
    exact (Script.returns_pure.mp h).1.symm
  | some text =>
    rw [hsearch] at h
    rw [Option.all_some]
    by_cases hempty : text = ""
    · subst hempty
      exact (Script.returns_pure.mp h).1.symm
    · have hsome : ((some text).filter fun text ↦ text ≠ "").map runtime.toLowercase =
          some (runtime.toLowercase text) := by
        simp [Option.filter, hempty]
      rw [hsome, matchesSearch] at h
      rw [decide_eq_false hempty, Bool.false_or, Bool.eq_iff_iff, finds_iff]
      exact search_or containsKey_spec (containsValue_spec record.value) h

/-- What the scan of one record does. -/
theorem scanRecord_ok {state state' : ScanState}
    (hcompiled : (request.filters.mapM fun filter ↦ do
      return (← CompiledFilter.new runtime filter, FieldPath.new filter.path)) = .ok compiled)
    (hpaths : ∀ filter ∈ request.filters, Resolvable filter.path)
    (h : (scanRecord runtime request mode compiled ((request.search.filter fun text ↦
      text ≠ "").map runtime.toLowercase) state record).Returns budget state' budget') :
    state'.rows = state.rows ++ [record].filter (keeps runtime.toLowercase request) ∧
      state'.evidence = state.evidence ∧
      (state'.columns = state.columns ∨
        ∃ truncated, rowColumns record.value state.columns MAX_COLUMNS false =
          .ok (state'.columns, truncated)) := by
  unfold scanRecord at h
  dsimp only at h
  obtain ⟨_, _, -, h⟩ := Script.returns_bind.mp h
  obtain ⟨columns, _, hcolumns, h⟩ := Script.returns_ite_bind.mp h
  obtain ⟨fields, _, -, h⟩ := Script.returns_bind.mp h
  obtain ⟨filtered, _, hfiltered, h⟩ := Script.returns_bind.mp h
  obtain ⟨matched, _, hmatched, h⟩ := Script.returns_ite_bind.mp h
  obtain ⟨rfl, -⟩ := Script.returns_pure.mp h
  have hkeeps : matched = keeps runtime.toLowercase request record := by
    rw [keeps, ← matchesFilters_eq hcompiled hpaths hfiltered]
    cases filtered with
    | true => exact matchesSearch_eq hmatched
    | false => exact (Script.returns_pure.mp hmatched).1.symm
  refine ⟨?_, rfl, ?_⟩
  · rw [List.filter_singleton, ← hkeeps]
    cases matched with
    | true => rfl
    | false => exact (List.append_nil _).symm
  · split_ifs at hcolumns with hdiscover
    · rw [Script.returns_check] at hcolumns
      cases hfound : rowColumns record.value state.columns MAX_COLUMNS false with
      | error reason =>
        rw [hfound] at hcolumns
        cases hcolumns.1
      | ok found =>
        rw [hfound] at hcolumns
        exact Or.inr ⟨found.2, by rw [← Except.ok.inj hcolumns.1]⟩
    · exact Or.inl (Script.returns_pure.mp hcolumns).1.symm

/-- The columns a record brings can be looked up. -/
theorem resolvable_rowColumns {value : Value} {columns columns' : OrderedSet String} {cap : ℕ}
    {truncate truncated : Bool} (hcolumns : ∀ path ∈ columns, Resolvable path)
    (h : rowColumns value columns cap truncate = .ok (columns', truncated)) :
    ∀ path ∈ columns', Resolvable path := by
  refine @foldlM_keeps _ _ _ _ (fun state : OrderedSet String × Bool ↦
    ∀ path ∈ state.1, Resolvable path) _ (fun candidate hcandidate start stop hstart hstep ↦ ?_)
    (columns, false) (columns', truncated) hcolumns h
  dsimp only at hstep
  split_ifs at hstep
  · rw [← Except.ok.inj hstep]
    exact hstart
  · rw [← Except.ok.inj hstep]
    intro path hpath
    obtain rfl | hold := OrderedSet.mem_insert.mp hpath
    · split at hcandidate
      · obtain ⟨entry, -, rfl⟩ := List.mem_map.mp hcandidate
        exact resolvable_escapeKey entry.1
      · rw [List.mem_singleton.mp hcandidate]
        exact Or.inr (Or.inl rfl)
    · exact hstart path hold

/-- What the scan of some records does. -/
theorem scanRecords_ok {records : List Record} {state state' : ScanState}
    (hcompiled : (request.filters.mapM fun filter ↦ do
      return (← CompiledFilter.new runtime filter, FieldPath.new filter.path)) = .ok compiled)
    (hpaths : ∀ filter ∈ request.filters, Resolvable filter.path)
    (h : (records.foldlM (scanRecord runtime request mode compiled ((request.search.filter
      fun text ↦ text ≠ "").map runtime.toLowercase)) state).Returns budget state' budget') :
    state'.rows = state.rows ++ records.filter (keeps runtime.toLowercase request) ∧
      state'.evidence = state.evidence ∧
      ((∀ path ∈ state.columns, Resolvable path) → ∀ path ∈ state'.columns, Resolvable path) := by
  induction records generalizing state budget with
  | nil =>
    rw [List.foldlM_nil, Script.returns_pure] at h
    obtain ⟨rfl, -⟩ := h
    exact ⟨(List.append_nil _).symm, rfl, id⟩
  | cons record rest ih =>
    rw [List.foldlM_cons, Script.returns_bind] at h
    obtain ⟨middle, _, hrecord, hrest⟩ := h
    obtain ⟨hrows, hevidence, hcolumns⟩ := scanRecord_ok hcompiled hpaths hrecord
    obtain ⟨hrows', hevidence', hcolumns'⟩ := ih hrest
    refine ⟨?_, hevidence'.trans hevidence, fun hstart ↦ hcolumns' ?_⟩
    · rw [hrows', hrows, List.append_assoc, ← List.filter_append, List.singleton_append]
    · obtain hsame | ⟨truncated, hfound⟩ := hcolumns
      · exact hsame ▸ hstart
      · exact resolvable_rowColumns hstart hfound

/-- What the scan of one snapshot does. -/
theorem scanSnapshot_ok {snapshot : StoredSnapshot} {state state' : ScanState}
    (hcompiled : (request.filters.mapM fun filter ↦ do
      return (← CompiledFilter.new runtime filter, FieldPath.new filter.path)) = .ok compiled)
    (hpaths : ∀ filter ∈ request.filters, Resolvable filter.path)
    (h : (scanSnapshot runtime request mode sources compiled ((request.search.filter fun text ↦
      text ≠ "").map runtime.toLowercase) state snapshot).Returns budget state' budget') :
    state'.rows = state.rows ++
        (snapshotRecords request.path snapshot).filter (keeps runtime.toLowercase request) ∧
      state'.evidence = state.evidence ++ snapshotEvidence request.path sources snapshot ∧
      ((∀ path ∈ state.columns, Resolvable path) → ∀ path ∈ state'.columns, Resolvable path) := by
  unfold scanSnapshot at h
  dsimp only at h
  unfold snapshotRecords snapshotEvidence
  cases hvalue : snapshot.snapshot.state.value.pointer request.path with
  | none =>
    rw [hvalue] at h
    simp at h
  | some value =>
    rw [hvalue] at h
    cases hcount : collectionLen (some value) with
    | none =>
      rw [hcount] at h
      simp at h
    | some count =>
      rw [hcount] at h
      exact scanRecords_ok hcompiled hpaths h

/-- What the scan of all snapshots does. -/
theorem scanSnapshots_ok {snapshots : List StoredSnapshot} {state state' : ScanState}
    (hcompiled : (request.filters.mapM fun filter ↦ do
      return (← CompiledFilter.new runtime filter, FieldPath.new filter.path)) = .ok compiled)
    (hpaths : ∀ filter ∈ request.filters, Resolvable filter.path)
    (h : (snapshots.foldlM (scanSnapshot runtime request mode sources compiled
      ((request.search.filter fun text ↦ text ≠ "").map runtime.toLowercase)) state).Returns budget
        state' budget') :
    state'.rows = state.rows ++
        (tableRecords request.path snapshots).filter (keeps runtime.toLowercase request) ∧
      state'.evidence = state.evidence ++
        snapshots.flatMap (snapshotEvidence request.path sources) ∧
      ((∀ path ∈ state.columns, Resolvable path) → ∀ path ∈ state'.columns, Resolvable path) := by
  induction snapshots generalizing state budget with
  | nil =>
    rw [List.foldlM_nil, Script.returns_pure] at h
    obtain ⟨rfl, -⟩ := h
    exact ⟨(List.append_nil _).symm, (List.append_nil _).symm, id⟩
  | cons snapshot rest ih =>
    rw [List.foldlM_cons, Script.returns_bind] at h
    obtain ⟨middle, _, hsnapshot, hrest⟩ := h
    obtain ⟨hrows, hevidence, hcolumns⟩ := scanSnapshot_ok hcompiled hpaths hsnapshot
    obtain ⟨hrows', hevidence', hcolumns'⟩ := ih hrest
    refine ⟨?_, ?_, fun hstart ↦ hcolumns' (hcolumns hstart)⟩
    · rw [hrows', hrows, List.append_assoc, ← List.filter_append, tableRecords, tableRecords,
        List.flatMap_cons]
    · rw [hevidence', hevidence, List.append_assoc, List.flatMap_cons]

/-- What a scan returns. -/
theorem records_ok {snapshots : List StoredSnapshot} {scan : Scan}
    (hpaths : ∀ filter ∈ request.filters, Resolvable filter.path)
    (h : (records runtime request mode snapshots sources).Returns budget scan budget') :
    scan.rows = (tableRecords request.path snapshots).filter (keeps runtime.toLowercase request) ∧
      scan.snapshots = snapshots.flatMap (snapshotEvidence request.path sources) ∧
      ((∀ columns ∈ request.columns, ∀ path ∈ columns, Resolvable path) →
        ∀ path ∈ scan.columns, Resolvable path) := by
  unfold records at h
  dsimp only at h
  obtain ⟨compiled, _, hcompiled, h⟩ := Script.returns_bind.mp h
  obtain ⟨state, _, hstate, h⟩ := Script.returns_bind.mp h
  obtain ⟨hrows, hevidence, hcolumns⟩ :=
    scanSnapshots_ok (Script.returns_check.mp hcompiled).1 hpaths hstate
  have hscan : (⟨state.rows, if mode ≠ .projection then request.columns.getD state.columns.keys
      else [], state.evidence, state.allObjects⟩ : Scan) = scan := by
    obtain ⟨-, h⟩ | ⟨-, h⟩ := Script.returns_ite.mp h
    · obtain ⟨_, _, -, h⟩ := Script.returns_bind.mp h
      exact (Script.returns_pure.mp h).1
    · exact (Script.returns_pure.mp h).1
  subst hscan
  refine ⟨hrows, hevidence, fun hrequested path hpath ↦ ?_⟩
  dsimp only at hpath
  split_ifs at hpath
  · cases hcolumns' : request.columns with
    | none =>
      rw [hcolumns', Option.getD_none] at hpath
      refine hcolumns (fun path hpath ↦ ?_) path (OrderedMap.mem_def.mpr hpath)
      rw [OrderedSet.mem_ofList, List.mem_singleton] at hpath
      exact Or.inl hpath
    | some columns =>
      rw [hcolumns', Option.getD_some] at hpath
      exact hrequested columns hcolumns' path hpath
  · cases hpath

end Scan

end Rvx.Tables
