import Rvx.Tracking.ArtifactDigest

/-!
# What a directory digest identifies

The digest of a directory is that of its files: their paths and bytes, in whatever order the entries
are listed and in whatever parts the files are read.  Paths enter as the text they are shown as, so
that two names that are no text can be taken for each other.
-/

namespace Rvx.Tracking

/-! ## The files of a directory -/

/-- The bytes read until a read returns none. -/
def FileReads.content (reads : FileReads) : List UInt8 := ((reads.getD []).takeWhile (· ≠ [])).flatten

mutual

/-- The files below a directory. -/
def filesIn : List (FileName × Entry) → List (RelativePath × FileReads)
  | [] => []
  | (name, entry) :: rest =>
    (filesOf entry).map (fun file ↦ (name :: file.1, file.2)) ++ filesIn rest

def filesOf : Entry → List (RelativePath × FileReads)
  | .file reads => [([], reads)]
  | .directory entries => filesIn entries
  | .symlink => []
  | .other => []
  | .unlisted => []
  | .unreadable => []

end

/-- A name a file system allows. -/
def IsFileName (name : FileName) : Prop := name ≠ [] ∧ 0x2F ∉ name ∧ 0x00 ∉ name

mutual

/-- Every name is allowed, and no directory lists a name twice. -/
def WellNamed : List (FileName × Entry) → Prop
  | [] => True
  | (name, entry) :: rest =>
    IsFileName name ∧ name ∉ rest.map Prod.fst ∧ EntryWellNamed entry ∧ WellNamed rest

def EntryWellNamed : Entry → Prop
  | .file _ => True
  | .directory entries => WellNamed entries
  | .symlink => True
  | .other => True
  | .unlisted => True
  | .unreadable => True

end

/-- The files as pairs of byte strings: the path and the content. -/
def fileSet (entries : List (FileName × Entry)) : Set (List UInt8 × List UInt8) :=
  {file | ∃ path reads, (path, reads) ∈ filesIn entries ∧ file = (pathBytes path, reads.content)}

def totalSize (entries : List (FileName × Entry)) : ℕ :=
  ((filesIn entries).map fun file ↦ file.2.content.length).sum

/-- The files in the order of their paths. -/
def listing (entries : List (FileName × Entry)) : List (RelativePath × FileReads) :=
  StableSort.sortOn (fun file ↦ pathOrder file.1) (filesIn entries)

/-- The text a path is shown as. -/
def shown (path : RelativePath) : List UInt8 := LossyUtf8.lossy (pathBytes path)

/-- Two files agree in the text of their path and in their content. -/
def Alike (file file' : RelativePath × FileReads) : Prop :=
  shown file.1 = shown file'.1 ∧ file.2.content = file'.2.content

/-- Paired in the order of their paths, the files are alike, and some of the paths differ. -/
def Confusable (entries entries' : List (FileName × Entry)) : Prop :=
  List.Forall₂ Alike (listing entries) (listing entries') ∧
  ∃ pair ∈ (listing entries).zip (listing entries'), pair.1.1 ≠ pair.2.1

/-! ## Collecting -/

mutual

theorem collectFiles_ok {directory : RelativePath} {entries : List (FileName × Entry)}
    {files : List RelativePath} (h : collectFiles directory entries = .ok files) :
    files = (filesIn entries).map fun file ↦ directory ++ file.1 := by
  match entries with
  | [] =>
    simp only [collectFiles, Except.ok.injEq] at h
    simp [filesIn, ← h]
  | (name, entry) :: rest =>
    rw [collectFiles] at h
    match hentry : collectEntry (directory ++ [name]) entry with
    | .error error => simp [hentry, bind, Except.bind] at h
    | .ok first =>
      match hrest : collectFiles directory rest with
      | .error error => simp [hentry, hrest, bind, Except.bind] at h
      | .ok more =>
        simp only [hentry, hrest, bind, Except.bind, pure, Except.pure, Except.ok.injEq] at h
        rw [← h, collectEntry_ok hentry, collectFiles_ok hrest, filesIn, List.map_append,
          List.map_map]
        simp [Function.comp_def]

theorem collectEntry_ok {path : RelativePath} {entry : Entry} {files : List RelativePath}
    (h : collectEntry path entry = .ok files) :
    files = (filesOf entry).map fun file ↦ path ++ file.1 := by
  match entry with
  | .file reads =>
    simp only [collectEntry, Except.ok.injEq] at h
    simp [filesOf, ← h]
  | .directory entries =>
    rw [collectEntry] at h
    exact collectFiles_ok h
  | .symlink => simp [collectEntry] at h
  | .other =>
    simp only [collectEntry, Except.ok.injEq] at h
    simp [filesOf, ← h]
  | .unlisted => simp [collectEntry] at h
  | .unreadable => simp [collectEntry] at h

end

/-- A path starts with a name of the directory. -/
theorem exists_name_of_mem_filesIn {entries : List (FileName × Entry)} {path : RelativePath}
    {reads : FileReads} (h : (path, reads) ∈ filesIn entries) :
    ∃ name rest, path = name :: rest ∧ name ∈ entries.map Prod.fst := by
  induction entries with
  | nil => simp [filesIn] at h
  | cons first others ih =>
    rw [filesIn, List.mem_append] at h
    cases h with
    | inl hfirst =>
      obtain ⟨file, -, heq⟩ := List.mem_map.mp hfirst
      rw [Prod.mk.injEq] at heq
      exact ⟨first.1, file.1, heq.1.symm, by simp⟩
    | inr hothers =>
      obtain ⟨name, rest, hpath, hname⟩ := ih hothers
      exact ⟨name, rest, hpath, by simp [hname]⟩

mutual

/-- Every file is found under its path. -/
theorem entryAt_of_mem_filesIn {entries : List (FileName × Entry)} (hnames : WellNamed entries)
    {path : RelativePath} {reads : FileReads} (h : (path, reads) ∈ filesIn entries) :
    entryAt (.directory entries) path = some (.file reads) := by
  match entries with
  | [] => simp [filesIn] at h
  | (name, entry) :: rest =>
    rw [WellNamed] at hnames
    rw [filesIn, List.mem_append] at h
    cases h with
    | inl hfirst =>
      obtain ⟨file, hfile, heq⟩ := List.mem_map.mp hfirst
      rw [Prod.mk.injEq] at heq
      have hentry := entryAt_of_mem_filesOf hnames.2.2.1 (heq.2 ▸ hfile : (file.1, reads) ∈ _)
      rw [← heq.1, entryAt, List.lookup_cons_self]
      exact hentry
    | inr hrest =>
      obtain ⟨other, below, hpath, hother⟩ := exists_name_of_mem_filesIn hrest
      have hne : (other == name) = false :=
        beq_eq_false_iff_ne.mpr fun heq ↦ hnames.2.1 (heq ▸ hother)
      have hfound := entryAt_of_mem_filesIn hnames.2.2.2 hrest
      rw [hpath, entryAt] at hfound ⊢
      rwa [List.lookup_cons, hne]

theorem entryAt_of_mem_filesOf {entry : Entry} (hnames : EntryWellNamed entry)
    {path : RelativePath} {reads : FileReads} (h : (path, reads) ∈ filesOf entry) :
    entryAt entry path = some (.file reads) := by
  match entry with
  | .file reads' =>
    simp only [filesOf, List.mem_singleton, Prod.mk.injEq] at h
    rw [h.1, h.2, entryAt]
  | .directory entries =>
    rw [filesOf] at h
    exact entryAt_of_mem_filesIn (by simpa only [EntryWellNamed] using hnames) h
  | .symlink => simp [filesOf] at h
  | .other => simp [filesOf] at h
  | .unlisted => simp [filesOf] at h
  | .unreadable => simp [filesOf] at h

end

mutual

theorem nodup_filesIn {entries : List (FileName × Entry)} (hnames : WellNamed entries) :
    ((filesIn entries).map Prod.fst).Nodup := by
  match entries with
  | [] => simp [filesIn]
  | (name, entry) :: rest =>
    rw [WellNamed] at hnames
    have hfirst := (nodup_filesOf hnames.2.2.1).map (List.cons_injective (a := name))
    rw [filesIn, List.map_append, List.map_map]
    rw [List.map_map] at hfirst
    refine hfirst.append (nodup_filesIn hnames.2.2.2) fun path hpath hpath' ↦ ?_
    obtain ⟨file, -, hfile⟩ := List.mem_map.mp hpath
    obtain ⟨⟨path', reads⟩, hmem, heq⟩ := List.mem_map.mp hpath'
    obtain ⟨other, below, hother, hname⟩ := exists_name_of_mem_filesIn hmem
    have hcons : name :: file.1 = other :: below := hfile.trans (heq.symm.trans hother)
    exact hnames.2.1 ((List.cons.inj hcons).1 ▸ hname)

theorem nodup_filesOf {entry : Entry} (hnames : EntryWellNamed entry) :
    ((filesOf entry).map Prod.fst).Nodup := by
  match entry with
  | .file reads => simp [filesOf]
  | .directory entries =>
    rw [filesOf]
    exact nodup_filesIn (by simpa only [EntryWellNamed] using hnames)
  | .symlink => simp [filesOf]
  | .other => simp [filesOf]
  | .unlisted => simp [filesOf]
  | .unreadable => simp [filesOf]

end

mutual

theorem isFileName_of_mem_filesIn {entries : List (FileName × Entry)} (hnames : WellNamed entries)
    {file : RelativePath × FileReads} (h : file ∈ filesIn entries) :
    ∀ name ∈ file.1, IsFileName name := by
  match entries with
  | [] => simp [filesIn] at h
  | (name, entry) :: rest =>
    rw [WellNamed] at hnames
    rw [filesIn, List.mem_append] at h
    cases h with
    | inl hfirst =>
      obtain ⟨inner, hinner, heq⟩ := List.mem_map.mp hfirst
      rw [← heq, List.forall_mem_cons]
      exact ⟨hnames.1, isFileName_of_mem_filesOf hnames.2.2.1 hinner⟩
    | inr hrest => exact isFileName_of_mem_filesIn hnames.2.2.2 hrest

theorem isFileName_of_mem_filesOf {entry : Entry} (hnames : EntryWellNamed entry)
    {file : RelativePath × FileReads} (h : file ∈ filesOf entry) :
    ∀ name ∈ file.1, IsFileName name := by
  match entry with
  | .file reads =>
    simp only [filesOf, List.mem_singleton] at h
    simp [h]
  | .directory entries =>
    rw [filesOf] at h
    exact isFileName_of_mem_filesIn (by simpa only [EntryWellNamed] using hnames) h
  | .symlink => simp [filesOf] at h
  | .other => simp [filesOf] at h
  | .unlisted => simp [filesOf] at h
  | .unreadable => simp [filesOf] at h

end

/-! ## Paths as bytes -/

/-- A path can be read back from its bytes. -/
theorem splitOn_pathBytes {path : RelativePath} (hne : path ≠ [])
    (hnames : ∀ name ∈ path, IsFileName name) : (pathBytes path).splitOn 0x2F = path :=
  List.splitOn_intercalate 0x2F (fun name hname ↦ (hnames name hname).2.1) hne

theorem zero_notMem_pathBytes {path : RelativePath} (hnames : ∀ name ∈ path, IsFileName name) :
    0x00 ∉ pathBytes path := by
  induction path with
  | nil => simp [pathBytes]
  | cons name rest ih =>
    rw [List.forall_mem_cons] at hnames
    cases rest with
    | nil =>
      rw [pathBytes, List.intercalate_singleton]
      exact hnames.1.2.2
    | cons next others =>
      rw [pathBytes, List.intercalate_cons_cons, List.mem_append, List.mem_append, not_or, not_or]
      exact ⟨⟨hnames.1.2.2, by simp⟩, ih hnames.2⟩

theorem zero_notMem_shown {path : RelativePath} (hnames : ∀ name ∈ path, IsFileName name) :
    0x00 ∉ shown path := by
  have hbytes : ∀ byte ∈ pathBytes path, byte ≠ 0x00 :=
    fun byte hbyte heq ↦ zero_notMem_pathBytes hnames (heq ▸ hbyte)
  intro hmem
  have hreplacement : ∀ byte ∈ LossyUtf8.replacement, byte ≠ 0x00 := by
    simp [LossyUtf8.replacement]
  exact LossyUtf8.forall_mem_lossy hreplacement hbytes 0x00 hmem rfl

/-! ## Hashing -/

theorem toNat_hexDigit {value : ℕ} (h : value < 16) :
    (hexDigit value).toNat = if value < 10 then 0x30 + value else 0x57 + value := by
  rw [hexDigit, LossyUtf8.toNat_ofNat]
  split_ifs <;> omega

theorem hexDigit_ne_zero {value : ℕ} (h : value < 16) : hexDigit value ≠ 0x00 := by
  intro heq
  have hnumber := toNat_hexDigit h
  rw [heq, UInt8.toNat_zero] at hnumber
  split_ifs at hnumber <;> omega

theorem hexDigit_injOn {value other : ℕ} (hvalue : value < 16) (hother : other < 16)
    (h : hexDigit value = hexDigit other) : value = other := by
  have heq := congrArg UInt8.toNat h
  rw [toNat_hexDigit hvalue, toNat_hexDigit hother] at heq
  split_ifs at heq <;> omega

theorem zero_notMem_hexText (bytes : List UInt8) : 0x00 ∉ hexText bytes := by
  intro hmem
  obtain ⟨byte, -, hdigit⟩ := List.mem_flatMap.mp hmem
  have hbyte := byte.toNat_lt
  simp only [List.mem_cons, List.not_mem_nil, or_false] at hdigit
  cases hdigit with
  | inl hhigh => exact hexDigit_ne_zero (by omega) hhigh.symm
  | inr hlow => exact hexDigit_ne_zero (by omega) hlow.symm

theorem hexText_injective : Function.Injective hexText := by
  intro bytes bytes' h
  induction bytes generalizing bytes' with
  | nil =>
    cases bytes' with
    | nil => rfl
    | cons => simp [hexText] at h
  | cons byte rest ih =>
    cases bytes' with
    | nil => simp [hexText] at h
    | cons byte' rest' =>
      simp only [hexText, List.flatMap_cons, List.cons_append, List.nil_append,
        List.cons.injEq] at h
      have hbyte := byte.toNat_lt
      have hbyte' := byte'.toNat_lt
      have hhigh := hexDigit_injOn (by omega) (by omega) h.1
      have hlow := hexDigit_injOn (by omega) (by omega) h.2.1
      rw [UInt8.toNat_inj.mp (by omega : byte.toNat = byte'.toNat), ih h.2.2]

section

variable {sha : List UInt8 → List UInt8}

theorem saturatingAdd_le (size more : ℕ) : saturatingAdd size more ≤ 2 ^ 64 - 1 :=
  min_le_right _ _

/-- The parts a file is read in do not matter. -/
theorem digestFile_loop_eq (digest : Sha256) {size : ℕ} (hsize : size ≤ 2 ^ 64 - 1)
    (reads : List (List UInt8)) :
    digestFile.loop sha digest size reads =
      (hexText (sha (digest.input ++ FileReads.content (some reads))),
        saturatingAdd size (FileReads.content (some reads)).length) := by
  induction reads generalizing digest size with
  | nil => simpa [digestFile.loop, FileReads.content, saturatingAdd] using hsize
  | cons read more ih =>
    rw [digestFile.loop]
    split_ifs with hread
    · simpa [FileReads.content, hread, saturatingAdd] using hsize
    · have hcontent : FileReads.content (some (read :: more)) =
          read ++ FileReads.content (some more) := by simp [FileReads.content, hread]
      rw [ih (digest.update read) (saturatingAdd_le size read.length), hcontent]
      simp only [Sha256.update, saturatingAdd, List.append_assoc, List.length_append]
      congr 1
      omega

theorem digestFile_ok {reads : FileReads} {result : List UInt8 × ℕ}
    (h : digestFile sha (.file reads) = .ok result) :
    result = (hexText (sha reads.content), saturatingAdd 0 reads.content.length) := by
  cases reads with
  | none => simp [digestFile] at h
  | some reads =>
    rw [digestFile, Except.ok.injEq] at h
    rw [← h, digestFile_loop_eq Sha256.new (Nat.zero_le _) reads]
    rfl

/-- What a directory digest takes of one file. -/
def frame (sha : List UInt8 → List UInt8) (file : RelativePath × FileReads) : List UInt8 :=
  shown file.1 ++ 0x00 :: (hexText (sha file.2.content) ++ [0x00])

theorem digestPath_loop_ok {root : Entry} {files : List (RelativePath × FileReads)}
    (hfiles : ∀ file ∈ files, entryAt root file.1 = some (.file file.2)) {digest : Sha256}
    {size : ℕ} (hsize : size ≤ 2 ^ 64 - 1) {result : List UInt8 × ℕ}
    (h : digestPath.loop sha root digest size (files.map Prod.fst) = .ok result) :
    result = (hexText (sha (digest.input ++ files.flatMap (frame sha))),
      saturatingAdd size (files.map fun file ↦ file.2.content.length).sum) := by
  induction files generalizing digest size with
  | nil =>
    rw [List.map_nil, digestPath.loop, Except.ok.injEq] at h
    simpa [← h, saturatingAdd] using hsize
  | cons file rest ih =>
    rw [List.forall_mem_cons] at hfiles
    rw [List.map_cons, digestPath.loop, hfiles.1] at h
    dsimp only at h
    match hdigest : digestFile sha (.file file.2) with
    | .error error => simp [hdigest] at h
    | .ok (fileDigest, fileSize) =>
      simp only [hdigest] at h
      have hfile := digestFile_ok hdigest
      rw [Prod.mk.injEq] at hfile
      rw [ih hfiles.2 (saturatingAdd_le size fileSize) h, hfile.1, hfile.2]
      simp only [Sha256.update, saturatingAdd, List.flatMap_cons, frame, shown, List.append_assoc,
        List.cons_append, List.nil_append, List.map_cons, List.sum_cons]
      congr 1
      omega

/-! ## The bytes of a directory -/

/-- A part without the separator ends where the separator stands. -/
theorem append_separator_inj {separator : UInt8} {part part' rest rest' : List UInt8}
    (hpart : separator ∉ part) (hpart' : separator ∉ part')
    (h : part ++ separator :: rest = part' ++ separator :: rest') : part = part' ∧ rest = rest' := by
  have hsplit := congrArg (List.splitOn separator) h
  rw [List.splitOn_append_cons_self_of_not_mem hpart,
    List.splitOn_append_cons_self_of_not_mem hpart'] at hsplit
  have heq := (List.cons.inj hsplit).1
  rw [heq, List.append_cancel_left_eq, List.cons.injEq] at h
  exact ⟨heq, h.2⟩

theorem frame_eq_of_alike {file file' : RelativePath × FileReads} (h : Alike file file') :
    frame sha file = frame sha file' := by rw [frame, frame, h.1, h.2]

/-- Files whose names and contents a digest takes. -/
def Framed (inputs : Set (List UInt8)) (files : List (RelativePath × FileReads)) : Prop :=
  ∀ file ∈ files, (∀ name ∈ file.1, IsFileName name) ∧ file.2.content ∈ inputs

/-- The bytes given for a directory determine the texts of the paths and the contents. -/
theorem forall₂_alike_of_flatMap_frame_eq {inputs : Set (List UInt8)} (hsha : inputs.InjOn sha)
    {files files' : List (RelativePath × FileReads)} (hfiles : Framed inputs files)
    (hfiles' : Framed inputs files')
    (h : files.flatMap (frame sha) = files'.flatMap (frame sha)) :
    List.Forall₂ Alike files files' := by
  induction files generalizing files' with
  | nil =>
    cases files' with
    | nil => exact .nil
    | cons => simp [frame] at h
  | cons file rest ih =>
    cases files' with
    | nil => simp [frame] at h
    | cons file' rest' =>
      simp only [List.flatMap_cons, frame, List.append_assoc, List.cons_append,
        List.nil_append] at h
      have hfile := List.forall_mem_cons.mp hfiles
      have hfile' := List.forall_mem_cons.mp hfiles'
      have hpath := append_separator_inj (zero_notMem_shown hfile.1.1)
        (zero_notMem_shown hfile'.1.1) h
      have hdigest := append_separator_inj (zero_notMem_hexText _) (zero_notMem_hexText _) hpath.2
      have hcontent := hsha hfile.1.2 hfile'.1.2 (hexText_injective hdigest.1)
      exact .cons ⟨hpath.1, hcontent⟩ (ih hfile.2 hfile'.2 hdigest.2)

theorem flatMap_frame_eq_of_forall₂_alike {files files' : List (RelativePath × FileReads)}
    (h : List.Forall₂ Alike files files') :
    files.flatMap (frame sha) = files'.flatMap (frame sha) := by
  induction h with
  | nil => rfl
  | cons hfile _ ih => rw [List.flatMap_cons, List.flatMap_cons, frame_eq_of_alike hfile, ih]

/-! ## Directories -/

theorem mem_listing {entries : List (FileName × Entry)} {file : RelativePath × FileReads} :
    file ∈ listing entries ↔ file ∈ filesIn entries := StableSort.mem_sortOn

/-- What an accepted directory is digested to. -/
theorem digestPath_directory_ok {entries : List (FileName × Entry)} (hnames : WellNamed entries)
    {result : List UInt8 × ℕ} (h : digestPath sha (.directory entries) = .ok result) :
    result = (hexText (sha ((listing entries).flatMap (frame sha))),
      saturatingAdd 0 (totalSize entries)) := by
  rw [digestPath] at h
  match hfiles : collectFiles [] entries with
  | .error error => simp [hfiles, bind, Except.bind] at h
  | .ok files =>
    simp only [hfiles, bind, Except.bind] at h
    have hpaths : StableSort.sortOn pathOrder files = (listing entries).map Prod.fst := by
      rw [collectFiles_ok hfiles]
      exact (StableSort.map_sortOn Prod.fst fun _ _ ↦ rfl).symm
    have hfound : ∀ file ∈ listing entries,
        entryAt (.directory entries) file.1 = some (.file file.2) :=
      fun file hfile ↦ entryAt_of_mem_filesIn hnames (mem_listing.mp hfile)
    have htotal : ((listing entries).map fun file ↦ file.2.content.length).sum =
        totalSize entries := ((StableSort.perm_sortOn _ _).map _).sum_nat
    rw [hpaths] at h
    rw [digestPath_loop_ok hfound (Nat.zero_le _) h, htotal]
    rfl

/-- The byte strings that are hashed for a directory. -/
def hashed (sha : List UInt8 → List UInt8) (entries : List (FileName × Entry)) :
    Set (List UInt8) :=
  {bytes | bytes = (listing entries).flatMap (frame sha) ∨
    ∃ file ∈ filesIn entries, bytes = file.2.content}

theorem framed_listing {entries : List (FileName × Entry)} (hnames : WellNamed entries)
    {inputs : Set (List UInt8)} (hinputs : hashed sha entries ⊆ inputs) :
    Framed inputs (listing entries) := fun file hfile ↦
  have hmem := mem_listing.mp hfile
  ⟨isFileName_of_mem_filesIn hnames hmem, hinputs (Or.inr ⟨file, hmem, rfl⟩)⟩

/-- Two directories have one digest when their files are alike in the order of their paths. -/
theorem digest_eq_iff {a b : List (FileName × Entry)} (ha : WellNamed a) (hb : WellNamed b)
    {result result' : List UInt8 × ℕ} (hdigest : digestPath sha (.directory a) = .ok result)
    (hdigest' : digestPath sha (.directory b) = .ok result')
    (hsha : (hashed sha a ∪ hashed sha b).InjOn sha) :
    result.1 = result'.1 ↔ List.Forall₂ Alike (listing a) (listing b) := by
  rw [digestPath_directory_ok ha hdigest, digestPath_directory_ok hb hdigest']
  constructor
  · intro heq
    exact forall₂_alike_of_flatMap_frame_eq hsha (framed_listing ha Set.subset_union_left)
      (framed_listing hb Set.subset_union_right)
      (hsha (Or.inl (Or.inl rfl)) (Or.inr (Or.inl rfl)) (hexText_injective heq))
  · intro halike
    rw [flatMap_frame_eq_of_forall₂_alike halike]

end

/-! ## The same files -/

theorem pathOrder_injective : Function.Injective pathOrder :=
  List.map_injective_iff.mpr (List.map_injective_iff.mpr fun _ _ ↦ UInt8.toNat_inj.mp)

/-- The files in the order of their paths, without the parts they are read in. -/
def contents (entries : List (FileName × Entry)) : List (RelativePath × List UInt8) :=
  (listing entries).map fun file ↦ (file.1, file.2.content)

theorem ordered_contents {entries : List (FileName × Entry)} (hnames : WellNamed entries) :
    (contents entries).Pairwise fun file file' ↦ pathOrder file.1 < pathOrder file'.1 := by
  have hnodup : ((filesIn entries).map fun file ↦ pathOrder file.1).Nodup := by
    simpa [Function.comp_def] using (nodup_filesIn hnames).map pathOrder_injective
  exact List.pairwise_map.mpr (StableSort.ordered_sortOn hnodup)

theorem mem_fileSet_iff {entries : List (FileName × Entry)} {file : List UInt8 × List UInt8} :
    file ∈ fileSet entries ↔
      ∃ item ∈ contents entries, file = (pathBytes item.1, item.2) := by
  constructor
  · rintro ⟨path, reads, hmem, hfile⟩
    exact ⟨(path, reads.content), List.mem_map.mpr ⟨_, mem_listing.mpr hmem, rfl⟩, hfile⟩
  · rintro ⟨item, hitem, hfile⟩
    obtain ⟨⟨path, reads⟩, hmem, heq⟩ := List.mem_map.mp hitem
    exact ⟨path, reads, mem_listing.mp hmem, by rw [hfile, ← heq]⟩

theorem path_of_mem_contents {entries : List (FileName × Entry)} (hnames : WellNamed entries)
    {item : RelativePath × List UInt8} (h : item ∈ contents entries) :
    (pathBytes item.1).splitOn 0x2F = item.1 := by
  obtain ⟨⟨path, reads⟩, hmem, heq⟩ := List.mem_map.mp h
  have hfile := mem_listing.mp hmem
  obtain ⟨name, rest, hpath, -⟩ := exists_name_of_mem_filesIn hfile
  rw [← heq]
  exact splitOn_pathBytes (by simp [hpath]) (isFileName_of_mem_filesIn hnames hfile)

theorem mem_contents_of_fileSet_eq {a b : List (FileName × Entry)} (ha : WellNamed a)
    (hb : WellNamed b) (h : fileSet a = fileSet b) {item : RelativePath × List UInt8}
    (hitem : item ∈ contents a) : item ∈ contents b := by
  have hmem : (pathBytes item.1, item.2) ∈ fileSet b := h ▸ mem_fileSet_iff.mpr ⟨item, hitem, rfl⟩
  obtain ⟨other, hother, heq⟩ := mem_fileSet_iff.mp hmem
  rw [Prod.mk.injEq] at heq
  have hpath : item.1 = other.1 := by
    rw [← path_of_mem_contents ha hitem, ← path_of_mem_contents hb hother, heq.1]
  rwa [Prod.ext hpath heq.2]

/-- The set of files determines them in the order of their paths. -/
theorem fileSet_eq_iff {a b : List (FileName × Entry)} (ha : WellNamed a) (hb : WellNamed b) :
    fileSet a = fileSet b ↔ contents a = contents b := by
  constructor
  · intro h
    exact StableSort.eq_of_ordered (ordered_contents ha) (ordered_contents hb) fun item ↦
      ⟨mem_contents_of_fileSet_eq ha hb h, mem_contents_of_fileSet_eq hb ha h.symm⟩
  · intro h
    ext file
    rw [mem_fileSet_iff, mem_fileSet_iff, h]

theorem contents_eq_iff {files files' : List (RelativePath × FileReads)} :
    files.map (fun file ↦ (file.1, file.2.content)) =
        files'.map (fun file ↦ (file.1, file.2.content)) ↔
      List.Forall₂ Alike files files' ∧ ¬ ∃ pair ∈ files.zip files', pair.1.1 ≠ pair.2.1 := by
  induction files generalizing files' with
  | nil => cases files' <;> simp
  | cons file rest ih =>
    cases files' with
    | nil => simp
    | cons file' rest' =>
      simp only [List.map_cons, List.cons.injEq, Prod.mk.injEq, ih, List.forall₂_cons,
        List.zip_cons_cons, List.exists_mem_cons_iff, not_or, not_not, Alike]
      constructor
      · rintro ⟨⟨hpath, hcontent⟩, hrest, hpaths⟩
        exact ⟨⟨⟨by rw [shown, shown, hpath], hcontent⟩, hrest⟩, hpath, hpaths⟩
      · rintro ⟨⟨⟨-, hcontent⟩, hrest⟩, hpath, hpaths⟩
        exact ⟨⟨hpath, hcontent⟩, hrest, hpaths⟩

/-- Directories whose paths are texts are not confused. -/
theorem not_confusable_of_texts {a b : List (FileName × Entry)}
    (ha : ∀ file ∈ filesIn a, ∃ text : List Char,
      pathBytes file.1 = text.flatMap String.utf8EncodeChar)
    (hb : ∀ file ∈ filesIn b, ∃ text : List Char,
      pathBytes file.1 = text.flatMap String.utf8EncodeChar)
    (hnames : WellNamed a) (hnames' : WellNamed b) : ¬ Confusable a b := by
  rintro ⟨halike, pair, hpair, hne⟩
  have hfile := List.of_mem_zip hpair
  have hshown := ((List.forall₂_iff_zip.mp halike).2 hpair).1
  obtain ⟨text, htext⟩ := ha _ (mem_listing.mp hfile.1)
  obtain ⟨text', htext'⟩ := hb _ (mem_listing.mp hfile.2)
  rw [shown, shown, htext, htext', LossyUtf8.lossy_encode, LossyUtf8.lossy_encode, ← htext,
    ← htext'] at hshown
  have hsplit := path_of_mem_contents hnames (List.mem_map.mpr ⟨_, hfile.1, rfl⟩)
  have hsplit' := path_of_mem_contents hnames' (List.mem_map.mpr ⟨_, hfile.2, rfl⟩)
  exact hne (hsplit.symm.trans (hshown ▸ hsplit'))

/-- Digests tell apart what is not confusable, and the size is the sum of the sizes where it fits. -/
theorem digestPath_identifies {sha : List UInt8 → List UInt8} {a b : List (FileName × Entry)}
    (ha : WellNamed a) (hb : WellNamed b) {result result' : List UInt8 × ℕ}
    (hdigest : digestPath sha (.directory a) = .ok result)
    (hdigest' : digestPath sha (.directory b) = .ok result')
    (hsha : (hashed sha a ∪ hashed sha b).InjOn sha) :
    ((result.1 = result'.1 ↔ fileSet a = fileSet b) ∧ result.2 = totalSize a ∧
        result'.2 = totalSize b) ↔
      ¬ Confusable a b ∧ totalSize a < 2 ^ 64 ∧ totalSize b < 2 ^ 64 := by
  have hsize (total : ℕ) : saturatingAdd 0 total = total ↔ total < 2 ^ 64 := by
    rw [saturatingAdd]
    omega
  have hset : fileSet a = fileSet b ↔ List.Forall₂ Alike (listing a) (listing b) ∧
      ¬ ∃ pair ∈ (listing a).zip (listing b), pair.1.1 ≠ pair.2.1 :=
    (fileSet_eq_iff ha hb).trans contents_eq_iff
  rw [digest_eq_iff ha hb hdigest hdigest' hsha, hset, digestPath_directory_ok ha hdigest,
    digestPath_directory_ok hb hdigest', hsize, hsize, Confusable, iff_self_and, not_and]

theorem digestPath_identifies_reordered :
    ∃ result result',
      digestPath id (.directory [([0x61], .file (some [[1], [2]])),
        ([0x62], .directory [([0xFF], .file (some [[3]]))])]) = .ok result ∧
      digestPath id (.directory [([0x62], .directory [([0xFF], .file (some [[3]]))]),
        ([0x61], .file (some [[1, 2]]))]) = .ok result' ∧
      (((result.1 = result'.1 ↔ fileSet [([0x61], .file (some [[1], [2]])),
          ([0x62], .directory [([0xFF], .file (some [[3]]))])] =
        fileSet [([0x62], .directory [([0xFF], .file (some [[3]]))]),
          ([0x61], .file (some [[1, 2]]))]) ∧
        result.2 = totalSize [([0x61], .file (some [[1], [2]])),
          ([0x62], .directory [([0xFF], .file (some [[3]]))])] ∧
        result'.2 = totalSize [([0x62], .directory [([0xFF], .file (some [[3]]))]),
          ([0x61], .file (some [[1, 2]]))]) ↔
      ¬ Confusable [([0x61], .file (some [[1], [2]])),
          ([0x62], .directory [([0xFF], .file (some [[3]]))])]
        [([0x62], .directory [([0xFF], .file (some [[3]]))]), ([0x61], .file (some [[1, 2]]))] ∧
        totalSize [([0x61], .file (some [[1], [2]])),
          ([0x62], .directory [([0xFF], .file (some [[3]]))])] < 2 ^ 64 ∧
        totalSize [([0x62], .directory [([0xFF], .file (some [[3]]))]),
          ([0x61], .file (some [[1, 2]]))] < 2 ^ 64) :=
  ⟨_, _, rfl, rfl, digestPath_identifies (by simp [WellNamed, EntryWellNamed, IsFileName])
    (by simp [WellNamed, EntryWellNamed, IsFileName]) rfl rfl Function.injective_id.injOn⟩

/-- Equal files named by the bytes 0xFF and 0xFE. -/
theorem digestPath_confuses :
    WellNamed [([0xFF], .file (some [[1]]))] ∧ WellNamed [([0xFE], .file (some [[1]]))] ∧
    (∃ result, digestPath id (.directory [([0xFF], .file (some [[1]]))]) = .ok result ∧
      digestPath id (.directory [([0xFE], .file (some [[1]]))]) = .ok result) ∧
    fileSet [([0xFF], .file (some [[1]]))] ≠ fileSet [([0xFE], .file (some [[1]]))] := by
  refine ⟨by simp [WellNamed, EntryWellNamed, IsFileName],
    by simp [WellNamed, EntryWellNamed, IsFileName], ⟨_, rfl, rfl⟩, fun heq ↦ ?_⟩
  have hmem : ([0xFF], [1]) ∈ fileSet [([0xFF], .file (some [[1]]))] :=
    ⟨[[0xFF]], some [[1]], by simp [filesIn, filesOf], rfl⟩
  rw [heq] at hmem
  obtain ⟨path, reads, hfile, hpath⟩ := hmem
  simp only [filesIn, filesOf, List.map_cons, List.map_nil, List.append_nil, List.mem_singleton,
    Prod.mk.injEq] at hfile
  have hbytes : [0xFF] = pathBytes [[0xFE]] := hfile.1 ▸ congrArg Prod.fst hpath
  exact absurd hbytes (by decide)

end Rvx.Tracking
