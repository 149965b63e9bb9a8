/- digest: The paths of the sandbox and its file system: a path is normal by construction, and a file
   is found under every spelling of its path, after any operations and after a reload. -/

import Mathlib.Data.List.Basic
import Mathlib.Data.List.Induction
import Std.Data.ExtTreeMap

set_option autoImplicit false
set_option relaxedAutoImplicit false

namespace LlmGraph.Agentic

inductive SandboxError where
  | Empty (text : String)
  | Absolute (text : String)
  | Escapes (text : String)
  | Character (text : String)
  | Duplicate (path : String)
  deriving DecidableEq, Repr

/-- A part that a path keeps. -/
def isNamed (part : List Char) : Bool := !part.isEmpty && part != ['.']

/-- Slashes between parts that are names: neither empty nor a dot, and none that goes up. -/
def Normal (text : List Char) : Prop :=
  ∃ parts : List (List Char), parts ≠ [] ∧ text = ['/'].intercalate parts ∧
    ∀ part ∈ parts, part ≠ [] ∧ part ≠ ['.'] ∧ part ≠ ['.', '.'] ∧ '/' ∉ part ∧
      Char.ofNat 0 ∉ part ∧ '\\' ∉ part

/-- The loop over the parts of a text: those that are kept, and none when a part goes up. -/
def keptParts : List (List Char) → Option (List (List Char))
  | [] => some []
  | part :: rest =>
      if !isNamed part then keptParts rest
      else if part = ['.', '.'] then none
      else (keptParts rest).map (part :: ·)

/-- The parts of a text between its slashes, other than empty ones and dots. -/
def namedParts (text : String) : List (List Char) := (text.toList.splitOn '/').filter isNamed

theorem keptParts_some {parts kept : List (List Char)} (hkept : keptParts parts = some kept) :
    kept = parts.filter isNamed ∧ ['.', '.'] ∉ parts := by
  induction parts generalizing kept with
  | nil =>
      cases hkept
      exact ⟨rfl, List.not_mem_nil⟩
  | cons part rest hind =>
      unfold keptParts at hkept
      rw [List.filter_cons, List.mem_cons, not_or]
      split at hkept
      · rename_i hskipped
        obtain ⟨hrest, hnone⟩ := hind hkept
        have hnot : ¬isNamed part = true := by simpa using hskipped
        rw [if_neg hnot]
        refine ⟨hrest, fun hsame => ?_, hnone⟩
        rw [← hsame] at hnot
        exact hnot rfl
      · rename_i hnamed
        split at hkept
        · cases hkept
        · rename_i hstays
          obtain ⟨others, hothers, rfl⟩ := Option.map_eq_some_iff.mp hkept
          obtain ⟨hrest, hnone⟩ := hind hothers
          have hpart : isNamed part = true := by simpa using hnamed
          rw [if_pos hpart, hrest]
          exact ⟨rfl, fun hsame => hstays hsame.symm, hnone⟩

theorem keptParts_of_named {parts : List (List Char)} (hnone : ['.', '.'] ∉ parts) :
    keptParts parts = some (parts.filter isNamed) := by
  induction parts with
  | nil => rfl
  | cons part rest hind =>
      rw [List.mem_cons, not_or] at hnone
      unfold keptParts
      rw [List.filter_cons, hind hnone.2]
      cases hpart : isNamed part with
      | false => rfl
      | true =>
          have hstays : part ≠ ['.', '.'] := fun hsame => hnone.1 hsame.symm
          show (if part = ['.', '.'] then none else _) = _
          rw [if_neg hstays]
          rfl

/-- The parts between slashes hold none, and only characters of the text. -/
theorem mem_splitOn {text part : List Char} (hpart : part ∈ text.splitOn '/') :
    '/' ∉ part ∧ ∀ c ∈ part, c ∈ text := by
  induction text generalizing part with
  | nil =>
      rw [List.splitOn_nil, List.mem_singleton] at hpart
      rw [hpart]
      exact ⟨List.not_mem_nil, fun _ hmem => hmem⟩
  | cons first rest hind =>
      rw [List.splitOn_cons_eq_if_modifyHead] at hpart
      split at hpart
      · rcases List.mem_cons.mp hpart with rfl | hlater
        · exact ⟨List.not_mem_nil, fun _ hmem => by cases hmem⟩
        · obtain ⟨hnone, hchars⟩ := hind hlater
          exact ⟨hnone, fun c hmem => List.mem_cons_of_mem _ (hchars c hmem)⟩
      · rename_i hfirst
        obtain ⟨head, tail, hsplit⟩ := List.exists_cons_of_ne_nil (List.splitOn_ne_nil '/' rest)
        rw [hsplit, List.modifyHead_cons] at hpart
        rcases List.mem_cons.mp hpart with rfl | hlater
        · have hhead : head ∈ rest.splitOn '/' := hsplit ▸ List.mem_cons_self
          obtain ⟨hnone, hchars⟩ := hind hhead
          refine ⟨?_, fun c hmem => ?_⟩
          · rw [List.mem_cons, not_or]
            exact ⟨fun hsame => hfirst (by simp [← hsame]), hnone⟩
          · rcases List.mem_cons.mp hmem with rfl | hinside
            · exact List.mem_cons_self
            · exact List.mem_cons_of_mem _ (hchars c hinside)
        · obtain ⟨hnone, hchars⟩ := hind (hsplit ▸ List.mem_cons_of_mem head hlater)
          exact ⟨hnone, fun c hmem => List.mem_cons_of_mem _ (hchars c hmem)⟩

/-- The characters of joined parts: slashes, and those of the parts. -/
theorem mem_intercalate {parts : List (List Char)} {c : Char}
    (hmem : c ∈ ['/'].intercalate parts) : c = '/' ∨ ∃ part ∈ parts, c ∈ part := by
  induction parts with
  | nil => cases hmem
  | cons part rest hind =>
      by_cases hlast : rest = []
      · rw [hlast, List.intercalate_singleton] at hmem
        exact .inr ⟨part, List.mem_cons_self, hmem⟩
      · rw [List.intercalate_cons_of_ne_nil hlast, List.mem_append, List.mem_append] at hmem
        rcases hmem with (hinside | hslash) | hlater
        · exact .inr ⟨part, List.mem_cons_self, hinside⟩
        · exact .inl (List.mem_singleton.mp hslash)
        · rcases hind hlater with hslash | ⟨other, hother, hinside⟩
          · exact .inl hslash
          · exact .inr ⟨other, List.mem_cons_of_mem _ hother, hinside⟩

/-- `text.contains('\0') || text.contains('\\')`. -/
def holdsCharacter (text : String) : Bool :=
  text.toList.contains (Char.ofNat 0) || text.toList.contains '\\'

/-- What is kept of a text without such characters is normal. -/
theorem normal_of_kept {text : String} {kept : List (List Char)}
    (hcharacter : holdsCharacter text = false)
    (hkept : keptParts (text.toList.splitOn '/') = some kept) (hsome : kept ≠ []) :
    Normal (['/'].intercalate kept) := by
  obtain ⟨rfl, hup⟩ := keptParts_some hkept
  refine ⟨_, hsome, rfl, fun part hpart => ?_⟩
  obtain ⟨hmem, hnamed⟩ := List.mem_filter.mp hpart
  obtain ⟨hslash, hchars⟩ := mem_splitOn hmem
  unfold holdsCharacter at hcharacter
  rw [Bool.or_eq_false_iff] at hcharacter
  unfold isNamed at hnamed
  rw [Bool.and_eq_true] at hnamed
  refine ⟨by simpa using hnamed.1, by simpa using hnamed.2, fun hsame => hup (hsame ▸ hmem), hslash,
    fun hzero => ?_, fun hback => ?_⟩
  · have hthere := hchars _ hzero
    simp [hthere] at hcharacter
  · have hthere := hchars _ hback
    simp [hthere] at hcharacter

/-- A path of the sandbox, which is normal. -/
structure SandboxPath where
  text : String
  normal : Normal text.toList
  deriving DecidableEq

namespace SandboxPath

theorem ext_text {path other : SandboxPath} (hsame : path.text = other.text) : path = other := by
  cases path
  cases hsame
  rfl

def new (text : String) : Except SandboxError SandboxPath :=
  match hcharacter : holdsCharacter text with
  | true => .error (.Character text)
  | false =>
      if text.toList.head? = some '/' then .error (.Absolute text)
      else
        match hkept : keptParts (text.toList.splitOn '/') with
        | none => .error (.Escapes text)
        | some kept =>
            if hsome : kept = [] then .error (.Empty text)
            else .ok ⟨String.ofList (['/'].intercalate kept), by
              rw [String.toList_ofList]
              exact normal_of_kept hcharacter hkept hsome⟩

theorem new_ok {text : String} {path : SandboxPath} : new text = .ok path ↔
    holdsCharacter text = false ∧ text.toList.head? ≠ some '/' ∧
      ['.', '.'] ∉ text.toList.splitOn '/' ∧ namedParts text ≠ [] ∧
        path.text.toList = ['/'].intercalate (namedParts text) := by
  unfold new namedParts
  constructor
  · intro hnew
    split at hnew
    · cases hnew
    · rename_i hcharacter
      split at hnew
      · cases hnew
      · rename_i hrelative
        split at hnew
        · cases hnew
        · rename_i kept hkept
          obtain ⟨rfl, hup⟩ := keptParts_some hkept
          split at hnew
          · cases hnew
          · rename_i hsome
            cases hnew
            exact ⟨hcharacter, hrelative, hup, hsome, String.toList_ofList⟩
  · rintro ⟨hcharacter, hrelative, hup, hsome, hpath⟩
    split
    · rename_i hother
      rw [hcharacter] at hother
      cases hother
    · rw [if_neg hrelative]
      split
      · rename_i hother
        rw [keptParts_of_named hup] at hother
        cases hother
      · rename_i kept hkept
        obtain ⟨rfl, -⟩ := keptParts_some hkept
        rw [dif_neg hsome]
        refine congrArg Except.ok (ext_text (String.toList_injective ?_))
        rw [hpath, String.toList_ofList]

/-- A normal path is the path of its text. -/
theorem new_text (path : SandboxPath) : new path.text = .ok path := by
  obtain ⟨parts, hsome, htext, hparts⟩ := path.normal
  have hsplit : path.text.toList.splitOn '/' = parts := by
    rw [htext]
    exact List.splitOn_intercalate '/' (fun part hpart => (hparts part hpart).2.2.2.1) hsome
  have hnamed : namedParts path.text = parts := by
    unfold namedParts
    rw [hsplit, List.filter_eq_self]
    intro part hpart
    obtain ⟨hnonempty, hdot, -⟩ := hparts part hpart
    unfold isNamed
    rw [Bool.and_eq_true]
    exact ⟨by simpa using hnonempty, by simpa using hdot⟩
  refine new_ok.mpr ⟨?_, ?_, ?_, hnamed ▸ hsome, hnamed ▸ htext⟩
  · have hfree (c : Char) (hslash : c ≠ '/') (hnone : ∀ part ∈ parts, c ∉ part) :
        c ∉ path.text.toList := by
      intro hc
      rw [htext] at hc
      rcases mem_intercalate hc with hsame | ⟨part, hpart, hinside⟩
      · exact hslash hsame
      · exact hnone part hpart hinside
    have hzero : Char.ofNat 0 ∉ path.text.toList :=
      hfree _ (by decide) fun part hpart => (hparts part hpart).2.2.2.2.1
    have hback : '\\' ∉ path.text.toList :=
      hfree _ (by decide) fun part hpart => (hparts part hpart).2.2.2.2.2
    unfold holdsCharacter
    rw [Bool.or_eq_false_iff]
    exact ⟨by simpa using hzero, by simpa using hback⟩
  · obtain ⟨first, rest, rfl⟩ := List.exists_cons_of_ne_nil hsome
    obtain ⟨hnonempty, -, -, hslash, -⟩ := hparts first List.mem_cons_self
    obtain ⟨head, tail, rfl⟩ := List.exists_cons_of_ne_nil hnonempty
    have hhead : path.text.toList.head? = some head := by
      rw [htext]
      cases rest with
      | nil => rfl
      | cons second rest =>
          rw [List.intercalate_cons_cons]
          rfl
    rw [hhead]
    intro hsame
    rw [Option.some.inj hsame] at hslash
    exact hslash List.mem_cons_self
  · rw [hsplit]
    intro hup
    exact (hparts _ hup).2.2.1 rfl

theorem splitOn_text {text : String} {path : SandboxPath} (hnew : new text = .ok path) :
    path.text.toList.splitOn '/' = namedParts text := by
  obtain ⟨-, -, -, hsome, hpath⟩ := new_ok.mp hnew
  rw [hpath]
  refine List.splitOn_intercalate '/' (fun part hpart => ?_) hsome
  exact (mem_splitOn (List.mem_filter.mp hpart).1).1

/-- Accepted texts are spellings of one path when they name the same parts. -/
theorem same_iff {text other : String} {path path' : SandboxPath} (hnew : new text = .ok path)
    (hother : new other = .ok path') : path = path' ↔ namedParts text = namedParts other := by
  constructor
  · rintro rfl
    rw [← splitOn_text hnew, splitOn_text hother]
  · intro hparts
    obtain ⟨-, -, -, -, hpath⟩ := new_ok.mp hnew
    obtain ⟨-, -, -, -, hpath'⟩ := new_ok.mp hother
    refine ext_text (String.toList_injective ?_)
    rw [hpath, hpath', hparts]

/-- Paths are ordered as their texts are. -/
instance : Ord SandboxPath where
  compare path other := compare path.text other.text

instance : Std.TransOrd SandboxPath where
  eq_swap := by
    intro path other
    have hswap : compare path.text other.text = (compare other.text path.text).swap :=
      Std.OrientedCmp.eq_swap
    exact hswap
  isLE_trans := by
    intro path middle other hfirst hsecond
    have hfirst' : (compare path.text middle.text).isLE := hfirst
    have hsecond' : (compare middle.text other.text).isLE := hsecond
    have htrans : (compare path.text other.text).isLE := Std.TransCmp.isLE_trans hfirst' hsecond'
    exact htrans

instance : Std.LawfulEqOrd SandboxPath where
  compare_self := by
    intro path
    have hself : compare path.text path.text = .eq := Std.ReflCmp.compare_self
    exact hself
  eq_of_compare := by
    intro path other hsame
    have hsame' : compare path.text other.text = .eq := hsame
    exact ext_text (Std.LawfulEqCmp.eq_of_compare hsame')

end SandboxPath

abbrev Content := List UInt8

structure WorkspaceFile where
  path : String
  content : Content
  deriving DecidableEq, Repr

/-- The files of an instance, by their paths. -/
structure FileSystem where
  files : Std.ExtTreeMap SandboxPath Content

namespace FileSystem

def default : FileSystem := ⟨∅⟩

/-- The loop of `from_files`, on the files taken so far. -/
def takeFiles (system : FileSystem) : List WorkspaceFile → Except SandboxError FileSystem
  | [] => .ok system
  | file :: rest =>
      match SandboxPath.new file.path with
      | .error error => .error error
      | .ok path =>
          if path ∈ system.files then .error (.Duplicate path.text)
          else takeFiles ⟨system.files.insert path file.content⟩ rest

def fromFiles (files : List WorkspaceFile) : Except SandboxError FileSystem :=
  default.takeFiles files

def read (system : FileSystem) (path : String) : Except SandboxError (Option Content) :=
  match SandboxPath.new path with
  | .error error => .error error
  | .ok path => .ok system.files[path]?

def write (system : FileSystem) (path : String) (content : Content) :
    Except SandboxError Unit × FileSystem :=
  match SandboxPath.new path with
  | .error error => (.error error, system)
  | .ok path => (.ok (), ⟨system.files.insert path content⟩)

def remove (system : FileSystem) (path : String) : Except SandboxError Bool × FileSystem :=
  match SandboxPath.new path with
  | .error error => (.error error, system)
  | .ok path => (.ok (decide (path ∈ system.files)), ⟨system.files.erase path⟩)

def intoFiles (system : FileSystem) : List WorkspaceFile :=
  system.files.toList.map fun (path, content) => ⟨path.text, content⟩

end FileSystem

/-- A change of a file system. -/
inductive FileChange where
  | Write (path : String) (content : Content)
  | Remove (path : String)
  deriving DecidableEq, Repr

namespace FileSystem

/-- A change of the file system: whether it is refused, and the file system after it. -/
def change (system : FileSystem) : FileChange → Except SandboxError Unit × FileSystem
  | .Write path content => system.write path content
  | .Remove path =>
      let (removed, next) := system.remove path
      (removed.map fun _ => (), next)

def changeAll (system : FileSystem) (changes : List FileChange) : FileSystem :=
  changes.foldl (fun system made => (system.change made).2) system

end FileSystem

/-- The path that an accepted change is about, with the content that it leaves there. -/
def FileChange.event : FileChange → Option (SandboxPath × Option Content)
  | Write path content => (SandboxPath.new path).toOption.map (·, some content)
  | Remove path => (SandboxPath.new path).toOption.map (·, none)

/-- A loaded file, as the change that it is. -/
def WorkspaceFile.loading (file : WorkspaceFile) : FileChange := .Write file.path file.content

/-- The last accepted change of the path. -/
def lastEvent (path : SandboxPath) (changes : List FileChange) :
    Option (SandboxPath × Option Content) :=
  (changes.filterMap FileChange.event).reverse.find? (·.1 == path)

/-- What is at a path after its last event, if there is one. -/
def contentAfter (before : Option Content) : Option (SandboxPath × Option Content) → Option Content
  | some event => event.2
  | none => before

namespace FileSystem

private theorem ext_files {system other : FileSystem}
    (hsame : ∀ path : SandboxPath, system.files[path]? = other.files[path]?) : system = other := by
  cases system
  cases other
  exact congrArg FileSystem.mk (Std.ExtTreeMap.ext_getElem? hsame)

theorem change_refused {system : FileSystem} {made : FileChange} {error : SandboxError}
    (hrefused : (system.change made).1 = .error error) : (system.change made).2 = system := by
  cases made with
  | Write path content =>
      have hwrite : (system.write path content).1 = .error error := hrefused
      show (system.write path content).2 = system
      unfold write at hwrite ⊢
      split
      · rfl
      · rename_i hpath
        rw [hpath] at hwrite
        cases hwrite
  | Remove path =>
      have hremove : ((system.remove path).1.map fun _ => ()) = .error error := hrefused
      show (system.remove path).2 = system
      unfold remove at hremove ⊢
      split
      · rfl
      · rename_i hpath
        rw [hpath] at hremove
        cases hremove

theorem change_files (system : FileSystem) (made : FileChange) (path : SandboxPath) :
    (system.change made).2.files[path]? =
      contentAfter system.files[path]? (made.event.filter (·.1 == path)) := by
  cases made with
  | Write text content =>
      have hevent : (FileChange.Write text content).event =
          (SandboxPath.new text).toOption.map (·, some content) := rfl
      show (system.write text content).2.files[path]? = _
      unfold write
      rw [hevent]
      rcases SandboxPath.new text with error | written
      · rfl
      · show (system.files.insert written content)[path]? =
          contentAfter _ (Option.filter _ (some (written, some content)))
        rw [Std.ExtTreeMap.getElem?_insert, Option.filter_some]
        simp only [Std.LawfulEqCmp.compare_eq_iff_eq, beq_iff_eq]
        split
        · rfl
        · rfl
  | Remove text =>
      have hevent : (FileChange.Remove text).event =
          (SandboxPath.new text).toOption.map (·, none) := rfl
      show (system.remove text).2.files[path]? = _
      unfold remove
      rw [hevent]
      rcases SandboxPath.new text with error | removed
      · rfl
      · show (system.files.erase removed)[path]? =
          contentAfter _ (Option.filter _ (some (removed, none)))
        rw [Std.ExtTreeMap.getElem?_erase, Option.filter_some]
        simp only [Std.LawfulEqCmp.compare_eq_iff_eq, beq_iff_eq]
        split
        · rfl
        · rfl

theorem lastEvent_append (path : SandboxPath) (changes : List FileChange) (made : FileChange) :
    lastEvent path (changes ++ [made]) =
      (made.event.filter (·.1 == path)).or (lastEvent path changes) := by
  unfold lastEvent
  rw [List.filterMap_append, List.reverse_append, List.find?_append, List.filterMap_cons,
    List.filterMap_nil]
  cases made.event with
  | none => rfl
  | some event =>
      show (List.find? _ [event]).or _ = _
      rw [List.find?_singleton, Option.filter_some]

/-- The last accepted change of a path decides what is there. -/
theorem changeAll_files (system : FileSystem) (changes : List FileChange) (path : SandboxPath) :
    (system.changeAll changes).files[path]? =
      contentAfter system.files[path]? (lastEvent path changes) := by
  induction changes using List.reverseRecOn with
  | nil => rfl
  | append_singleton changes made hind =>
      have hlast : system.changeAll (changes ++ [made]) =
          ((system.changeAll changes).change made).2 := by
        unfold changeAll
        rw [List.foldl_append]
        rfl
      rw [hlast, change_files, hind, lastEvent_append]
      cases made.event.filter (·.1 == path) with
      | none => rfl
      | some event => rfl

/-- A load is accepted when each file names a path of its own that is not there yet. -/
theorem takeFiles_ok {system loaded : FileSystem} {files : List WorkspaceFile} :
    system.takeFiles files = .ok loaded ↔
      (∃ paths : List SandboxPath,
        (files.map fun file => SandboxPath.new file.path) = paths.map .ok ∧ paths.Nodup ∧
          ∀ path ∈ paths, path ∉ system.files) ∧
        loaded = system.changeAll (files.map WorkspaceFile.loading) := by
  induction files generalizing system with
  | nil =>
      constructor
      · intro htook
        cases htook
        exact ⟨⟨[], rfl, List.nodup_nil, fun _ hmem => by cases hmem⟩, rfl⟩
      · rintro ⟨-, rfl⟩
        rfl
  | cons file rest hind =>
      have hchanged {path : SandboxPath} (hpath : SandboxPath.new file.path = .ok path) :
          (system.change file.loading).2 = ⟨system.files.insert path file.content⟩ := by
        show (system.write file.path file.content).2 = _
        unfold write
        rw [hpath]
      have hall {path : SandboxPath} (hpath : SandboxPath.new file.path = .ok path) :
          system.changeAll ((file :: rest).map WorkspaceFile.loading) =
            changeAll ⟨system.files.insert path file.content⟩ (rest.map WorkspaceFile.loading) := by
        rw [← hchanged hpath]
        rfl
      unfold takeFiles
      constructor
      · intro htook
        split at htook
        · cases htook
        rename_i path hpath
        split at htook
        · cases htook
        rename_i habsent
        obtain ⟨⟨paths, hpaths, hdistinct, hnone⟩, rfl⟩ := hind.mp htook
        have hnew : (((file :: rest).map fun file => SandboxPath.new file.path) :
            List (Except SandboxError SandboxPath)) = (path :: paths).map .ok := by
          rw [List.map_cons, hpath, hpaths]
          rfl
        refine ⟨⟨path :: paths, hnew, List.nodup_cons.mpr ⟨fun hmem => ?_, hdistinct⟩,
          fun other hother => ?_⟩, (hall hpath).symm⟩
        · exact hnone path hmem (Std.ExtTreeMap.mem_insert_self)
        · rcases List.mem_cons.mp hother with rfl | hlater
          · exact habsent
          · exact fun hthere => hnone other hlater (Std.ExtTreeMap.mem_insert.mpr (.inr hthere))
      · rintro ⟨⟨paths, hpaths, hdistinct, hnone⟩, rfl⟩
        cases paths with
        | nil => cases hpaths
        | cons path paths =>
            rw [List.map_cons, List.map_cons, List.cons.injEq] at hpaths
            obtain ⟨hpath, hpaths⟩ := hpaths
            rw [hpath]
            dsimp only
            rw [if_neg (hnone path List.mem_cons_self)]
            rw [List.nodup_cons] at hdistinct
            have hlater (other : SandboxPath) (hother : other ∈ paths) :
                other ∉ system.files.insert path file.content := by
              intro hthere
              rcases Std.ExtTreeMap.mem_insert.mp hthere with hsame | hbefore
              · rw [← Std.LawfulEqCmp.eq_of_compare hsame] at hother
                exact hdistinct.1 hother
              · exact hnone other (List.mem_cons_of_mem _ hother) hbefore
            exact hind.mpr ⟨⟨paths, hpaths, hdistinct.2, hlater⟩, hall hpath⟩

theorem fromFiles_ok {files : List WorkspaceFile} {loaded : FileSystem} :
    fromFiles files = .ok loaded ↔
      (∃ paths : List SandboxPath,
        (files.map fun file => SandboxPath.new file.path) = paths.map .ok ∧ paths.Nodup) ∧
        loaded = default.changeAll (files.map WorkspaceFile.loading) := by
  unfold fromFiles
  rw [takeFiles_ok]
  constructor
  · rintro ⟨⟨paths, hpaths, hdistinct, -⟩, hloaded⟩
    exact ⟨⟨paths, hpaths, hdistinct⟩, hloaded⟩
  · rintro ⟨⟨paths, hpaths, hdistinct⟩, hloaded⟩
    exact ⟨⟨paths, hpaths, hdistinct, fun _ _ => Std.ExtTreeMap.not_mem_empty⟩, hloaded⟩

/-- A refused load names a path that is refused, or a path twice. -/
theorem takeFiles_error {system : FileSystem} {files : List WorkspaceFile} {error : SandboxError}
    (hrefused : system.takeFiles files = .error error) :
    (∃ file ∈ files, SandboxPath.new file.path = .error error) ∨
      ∃ path : SandboxPath, error = .Duplicate path.text := by
  induction files generalizing system with
  | nil => cases hrefused
  | cons file rest hind =>
      unfold takeFiles at hrefused
      split at hrefused
      · rename_i hpath
        cases hrefused
        exact .inl ⟨file, List.mem_cons_self, hpath⟩
      · rename_i path hpath
        split at hrefused
        · cases hrefused
          exact .inr ⟨path, rfl⟩
        · rcases hind hrefused with ⟨other, hother, herror⟩ | hduplicate
          · exact .inl ⟨other, List.mem_cons_of_mem _ hother, herror⟩
          · exact .inr hduplicate

/-- The files of a file system, loaded, are the file system. -/
theorem fromFiles_intoFiles (system : FileSystem) : fromFiles system.intoFiles = .ok system := by
  refine fromFiles_ok.mpr ⟨⟨system.files.keys, ?_, Std.ExtTreeMap.nodup_keys⟩, ext_files ?_⟩
  · unfold intoFiles
    rw [← Std.ExtTreeMap.map_fst_toList_eq_keys, List.map_map, List.map_map]
    exact List.map_congr_left fun entry _ => SandboxPath.new_text entry.1
  · intro path
    have hevents : (system.intoFiles.map WorkspaceFile.loading).filterMap FileChange.event =
        system.files.toList.map fun entry => (entry.1, some entry.2) := by
      unfold intoFiles
      rw [List.map_map, List.filterMap_map, ← List.filterMap_eq_map]
      refine List.filterMap_congr fun entry _ => ?_
      show (SandboxPath.new entry.1.text).toOption.map (·, some entry.2) = _
      rw [SandboxPath.new_text]
      rfl
    have hevent {event : SandboxPath × Option Content}
        (hmem : event ∈ (system.files.toList.map fun entry => (entry.1, some entry.2))) :
        system.files[event.1]? = event.2 := by
      obtain ⟨⟨other, content⟩, hentry, rfl⟩ := List.mem_map.mp hmem
      exact Std.ExtTreeMap.mem_toList_iff_getElem?_eq_some.mp hentry
    rw [changeAll_files]
    unfold lastEvent
    rw [hevents]
    cases hfind : List.find? (·.1 == path)
        (system.files.toList.map fun entry => (entry.1, some entry.2)).reverse with
    | some event =>
        have hpath := List.find?_some hfind
        rw [← beq_iff_eq.mp hpath]
        exact hevent (List.mem_reverse.mp (List.mem_of_find?_eq_some hfind))
    | none =>
        have habsent : (default.files : Std.ExtTreeMap SandboxPath Content)[path]? = none :=
          Std.ExtTreeMap.getElem?_empty
        show system.files[path]? = default.files[path]?
        rw [habsent]
        by_contra hpresent
        obtain ⟨content, hcontent⟩ := Option.ne_none_iff_exists'.mp hpresent
        have hentry := Std.ExtTreeMap.mem_toList_iff_getElem?_eq_some.mpr hcontent
        have hnot := List.find?_eq_none.mp hfind (path, some content)
          (List.mem_reverse.mpr (List.mem_map.mpr ⟨_, hentry, rfl⟩))
        exact hnot (beq_self_eq_true path)

/-- A load of two spellings of one path is refused. -/
theorem fromFiles_twice (before middle after : List WorkspaceFile) {one other : WorkspaceFile}
    {path : SandboxPath} (hone : SandboxPath.new one.path = .ok path)
    (hother : SandboxPath.new other.path = .ok path) :
    ∃ error, fromFiles (before ++ one :: middle ++ other :: after) = .error error := by
  cases hloaded : fromFiles (before ++ one :: middle ++ other :: after) with
  | error error => exact ⟨error, rfl⟩
  | ok loaded =>
      obtain ⟨⟨paths, hpaths, hdistinct⟩, -⟩ := fromFiles_ok.mp hloaded
      have hresults : (paths.map Except.ok : List (Except SandboxError SandboxPath)).Nodup :=
        List.Pairwise.map _ (fun _ _ hdiffer hsame => hdiffer (Except.ok.inj hsame)) hdistinct
      rw [← hpaths, List.map_append, List.map_append, List.map_cons, List.map_cons, hone,
        hother] at hresults
      have hbefore := (List.nodup_append.mp hresults).2.2
      have hsame := hbefore (.ok path) (List.mem_append_right _ List.mem_cons_self) (.ok path)
        List.mem_cons_self
      exact absurd rfl hsame

theorem read_changeAll {files : List WorkspaceFile} {loaded : FileSystem}
    (changes : List FileChange) {text : String} {path : SandboxPath}
    (hloaded : fromFiles files = .ok loaded) (hpath : SandboxPath.new text = .ok path) :
    (loaded.changeAll changes).read text =
      .ok ((lastEvent path (files.map WorkspaceFile.loading ++ changes)).bind Prod.snd) := by
  obtain ⟨-, rfl⟩ := fromFiles_ok.mp hloaded
  have hhistory : (default.changeAll (files.map WorkspaceFile.loading)).changeAll changes =
      default.changeAll (files.map WorkspaceFile.loading ++ changes) := by
    unfold changeAll
    rw [List.foldl_append]
  have hcontent := changeAll_files default (files.map WorkspaceFile.loading ++ changes) path
  unfold read
  rw [hpath, hhistory]
  show Except.ok (FileSystem.files _)[path]? = _
  rw [hcontent]
  cases lastEvent path (files.map WorkspaceFile.loading ++ changes) with
  | none => exact congrArg Except.ok Std.ExtTreeMap.getElem?_empty
  | some event => rfl

end FileSystem

/-- An accepted path is normal and stays as it is, spellings agree on their named parts, and a
file system keeps what was written last at each path, across spellings, refusals and a reload. -/
theorem sandbox_files (files : List WorkspaceFile) (changes : List FileChange) :
    (∀ (text : String) (path : SandboxPath), SandboxPath.new text = .ok path →
      Normal path.text.toList ∧ path.text.toList.head? ≠ some '/' ∧
        SandboxPath.new path.text = .ok path) ∧
    (∀ (text other : String) (path path' : SandboxPath), SandboxPath.new text = .ok path →
      SandboxPath.new other = .ok path' → (path = path' ↔ namedParts text = namedParts other)) ∧
    (∀ loaded : FileSystem, FileSystem.fromFiles files = .ok loaded →
      FileSystem.fromFiles (loaded.changeAll changes).intoFiles = .ok (loaded.changeAll changes) ∧
      (∀ (text : String) (path : SandboxPath), SandboxPath.new text = .ok path →
        (loaded.changeAll changes).read text =
          .ok ((lastEvent path (files.map WorkspaceFile.loading ++ changes)).bind Prod.snd)) ∧
      ∀ (made : FileChange) (error : SandboxError),
        ((loaded.changeAll changes).change made).1 = .error error →
          ((loaded.changeAll changes).change made).2 = loaded.changeAll changes) ∧
    ∀ (before middle after : List WorkspaceFile) (one other : WorkspaceFile) (path : SandboxPath),
      files = before ++ one :: middle ++ other :: after → SandboxPath.new one.path = .ok path →
        SandboxPath.new other.path = .ok path →
          ∃ error, FileSystem.fromFiles files = .error error ∧
            ((∃ file ∈ files, SandboxPath.new file.path = .error error) ∨
              ∃ path : SandboxPath, error = .Duplicate path.text) := by
  refine ⟨fun text path hpath => ?_, fun text other path path' hpath hother => ?_,
    fun loaded hloaded => ⟨?_, fun text path hpath => ?_, fun made error hrefused => ?_⟩,
    fun before middle after one other path hfiles hone hother => ?_⟩
  · have hsame := SandboxPath.new_text path
    exact ⟨path.normal, (SandboxPath.new_ok.mp hsame).2.1, hsame⟩
  · exact SandboxPath.same_iff hpath hother
  · exact FileSystem.fromFiles_intoFiles _
  · exact FileSystem.read_changeAll changes hloaded hpath
  · exact FileSystem.change_refused hrefused
  · obtain ⟨error, herror⟩ := FileSystem.fromFiles_twice before middle after hone hother
    rw [hfiles]
    exact ⟨error, herror, FileSystem.takeFiles_error herror⟩

theorem sandbox_files_spelled :
    (SandboxPath.new "./a//b/").map SandboxPath.text = .ok "a/b" ∧
      ∃ loaded, FileSystem.fromFiles [⟨"a/./b", [1]⟩, ⟨"c", [2]⟩] = .ok loaded ∧
        (loaded.changeAll [.Write "a/b" [3], .Write "a/../b" [4], .Remove "c/"]).read "./a//b/" =
          .ok (some [3]) := by
  have hname : (SandboxPath.new "./a//b/").map SandboxPath.text = .ok "a/b" := by decide +kernel
  have hlast : ((SandboxPath.new "./a//b/").toOption.bind fun path =>
      (lastEvent path ([⟨"a/./b", [1]⟩, ⟨"c", [2]⟩].map WorkspaceFile.loading ++
        [.Write "a/b" [3], .Write "a/../b" [4], .Remove "c/"])).bind Prod.snd) = some [3] := by
    decide +kernel
  have hload : (FileSystem.fromFiles [⟨"a/./b", [1]⟩, ⟨"c", [2]⟩]).toBool = true := by
    decide +kernel
  refine ⟨hname, ?_⟩
  cases hloaded : FileSystem.fromFiles [⟨"a/./b", [1]⟩, ⟨"c", [2]⟩] with
  | error error =>
      rw [hloaded] at hload
      cases hload
  | ok loaded =>
      cases hpath : SandboxPath.new "./a//b/" with
      | error error =>
          rw [hpath] at hname
          cases hname
      | ok path =>
          have hall := sandbox_files [⟨"a/./b", [1]⟩, ⟨"c", [2]⟩]
            [.Write "a/b" [3], .Write "a/../b" [4], .Remove "c/"]
          have hread := (hall.2.2.1 loaded hloaded).2.1 _ path hpath
          rw [hpath] at hlast
          exact ⟨loaded, rfl, hread.trans (congrArg Except.ok hlast)⟩

end LlmGraph.Agentic
