import LayeredConfig.Files.Layers
import LayeredConfig.Substitution.Secret
import Mathlib.Data.List.Flatten
import Mathlib.Data.List.Forall2
import Mathlib.Data.List.Infix
import Mathlib.Data.List.Nodup
/-!
# Staying below a directory

The layers for a query and the files of secrets are found by joining names to the path of a
directory. If the names are plain, each of them is one component more behind those of the directory,
however its path is written: `components_join`. So the layers are told apart by the names that lead
to them, all of them lie below the directory, and they stand in the order in which the query lists
its environments, each from the environment down to the zone. More environments come at the end, and
a datacenter or zone that becomes known puts layers in between. Of the keys of secrets those that
are no plain names are refused before any file is read.

Main statement: `confined_below_directory`.
-/
namespace LayeredConfig

namespace Files

/-- The name of something in a directory: a path through several directories has a slash in it, and
points stand for the directory itself and for the one above. -/
structure Plain (name : String) : Prop where
  nonempty : name ≠ ""
  whole : '/' ∉ name.toList
  notHere : name ≠ "."
  notAbove : name ≠ ".."

/-- The path leads from the directory down along the names. -/
structure Leads (directory path : String) (names : List String) : Prop where
  joined : path = names.foldl join directory
  components : components path = Files.components directory ++ names
  plain : ∀ name ∈ names, Plain name

/-- The path leads to something in the directory or further down. -/
def Below (directory path : String) : Prop := ∃ names, names ≠ [] ∧ Leads directory path names

variable {directory base name : String} {names ps : List String}

/-! ### Pieces of a path -/

/-- The pieces that lead somewhere. -/
def named (pieces : List String) : List String :=
  pieces.filter fun piece => !piece.isEmpty && piece != "."

/-- The components of a path that is not absolute. -/
def relative : List String → List String
  | [] => []
  | first :: rest => if first = "." then "." :: named rest else named (first :: rest)

theorem components_eq (path : String) : components path =
    if isAbsolute path then "/" :: named (pieces path) else relative (pieces path) := by
  rw [components]
  split
  · rfl
  · cases pieces path with
    | nil => rfl
    | cons first rest =>
      rw [relative]
      split
      next same =>
        obtain ⟨rfl, rfl⟩ := List.cons.inj same
        rfl
      next other =>
        rw [if_neg fun point => other _ (congrArg (· :: rest) point)]
        rfl

theorem named_concat (plain : Plain name) (ps : List String) :
    named (ps ++ [name]) = named ps ++ [name] := by
  simp [named, List.filter_append, plain.nonempty, plain.notHere]

theorem named_concat_empty (ps : List String) : named (ps ++ [""]) = named ps := by
  simp [named, List.filter_append]

/-- A name behind the last piece is one component more. -/
theorem relative_concat (plain : Plain name) (some : ps ≠ []) :
    relative (ps ++ [name]) = relative ps ++ [name] := by
  obtain ⟨first, rest, rfl⟩ := List.exists_cons_of_ne_nil some
  rw [List.cons_append, relative, relative]
  split
  · rw [named_concat plain, List.cons_append]
  · rw [← List.cons_append, named_concat plain]

/-- So is a name in place of an empty piece. -/
theorem relative_concat_empty (plain : Plain name) (ps : List String) :
    relative (ps ++ [name]) = relative (ps ++ [""]) ++ [name] := by
  cases ps with
  | nil => simp [relative, named, plain.nonempty, plain.notHere]
  | cons first rest =>
    rw [relative_concat plain (List.cons_ne_nil _ _), List.cons_append, relative, relative]
    split
    · rw [named_concat_empty]
    · rw [← List.cons_append, named_concat_empty]

theorem pieces_ne_nil (path : String) : pieces path ≠ [] := by
  simp [pieces, List.splitOn_ne_nil]

theorem pieces_of_plain (plain : Plain name) : pieces name = [name] := by
  simp [pieces, List.splitOn_eq_singleton plain.whole]

theorem pieces_append (path more : String) :
    pieces (path ++ "/" ++ more) = pieces path ++ pieces more := by
  have chars : (path ++ "/" ++ more).toList = path.toList ++ '/' :: more.toList := by simp
  simp [pieces, chars, List.splitOn_append_cons_self]

theorem isAbsolute_of_plain (plain : Plain name) : isAbsolute name = false := by
  have whole := plain.whole
  rw [isAbsolute]
  cases chars : name.toList with
  | nil => rfl
  | cons c cs =>
    rw [chars, List.mem_cons, not_or] at whole
    simpa using Ne.symm whole.1

theorem isAbsolute_append (some : base ≠ "") (more : String) :
    isAbsolute (base ++ more) = isAbsolute base := by
  have chars : base.toList ≠ [] := fun empty => some (String.toList_eq_nil_iff.1 empty)
  rw [isAbsolute, isAbsolute, String.toList_append, List.head?_append_of_ne_nil _ chars]

theorem components_of_pieces {path longer : String} (plain : Plain name)
    (absolute : isAbsolute longer = isAbsolute path)
    (last : pieces longer = pieces path ++ [name] ∨
      ∃ ps, pieces path = ps ++ [""] ∧ pieces longer = ps ++ [name]) :
    components longer = components path ++ [name] := by
  rw [components_eq, components_eq, absolute]
  rcases last with longer | ⟨ps, empty, longer⟩
  · rw [longer, named_concat plain, relative_concat plain (pieces_ne_nil path)]
    split <;> rfl
  · rw [longer, empty, named_concat plain, named_concat_empty, relative_concat_empty plain]
    split <;> rfl

/-- Seen from a directory, a name is one component more. -/
theorem components_join (plain : Plain name) (directory : String) :
    components (join directory name) = components directory ++ [name] := by
  rw [join, isAbsolute_of_plain plain, if_neg Bool.false_ne_true]
  split
  next ends =>
    refine components_of_pieces plain ?_ (.inr ?_)
    · by_cases empty : directory = ""
      · rw [empty, String.empty_append, isAbsolute_of_plain plain]
        rfl
      · exact isAbsolute_append empty name
    · rw [Bool.or_eq_true, String.isEmpty_iff, beq_iff_eq] at ends
      rcases ends with rfl | slash
      · exact ⟨[], rfl, by rw [String.empty_append, pieces_of_plain plain, List.nil_append]⟩
      · obtain ⟨before, chars⟩ := List.getLast?_eq_some_iff.1 slash
        have split : directory = String.ofList before ++ "/" := by
          rw [← String.toList_inj, chars]
          simp
        refine ⟨pieces (String.ofList before), ?_, ?_⟩
        · rw [split, ← String.append_empty (s := String.ofList before ++ "/"), pieces_append]
          rfl
        · rw [split, pieces_append, pieces_of_plain plain]
  next inner =>
    refine components_of_pieces plain ?_ (.inl ?_)
    · have some : directory ≠ "" := by
        rintro rfl
        exact inner rfl
      rw [String.append_assoc, isAbsolute_append some]
    · rw [pieces_append, pieces_of_plain plain]

theorem components_foldl_join (plain : ∀ name ∈ names, Plain name) (directory : String) :
    components (names.foldl join directory) = components directory ++ names := by
  induction names generalizing directory with
  | nil => rw [List.foldl_nil, List.append_nil]
  | cons name rest ih =>
    obtain ⟨first, others⟩ := List.forall_mem_cons.1 plain
    rw [List.foldl_cons, ih others, components_join first, List.append_assoc,
      List.singleton_append]

theorem leads_of_plain (plain : ∀ name ∈ names, Plain name) (directory : String) :
    Leads directory (names.foldl join directory) names :=
  ⟨rfl, components_foldl_join plain directory, plain⟩

end Files

/-! ### Beginnings of lists -/

section Lists

variable {α : Type}

theorem prefix_inits {xs ys : List α} (longer : xs <+: ys) : xs.inits <+: ys.inits := by
  obtain ⟨more, rfl⟩ := longer
  rw [List.inits_append]
  exact List.prefix_append _ _

theorem nodup_inits (xs : List α) : xs.inits.Nodup := by
  induction xs with
  | nil => exact List.nodup_singleton _
  | cons x xs ih =>
    rw [List.inits_cons, List.nodup_cons, List.mem_map]
    exact ⟨nofun, ih.map List.cons_injective⟩

end Lists

/-! ### Queries -/

namespace Query

/-- The names that a query is made of. -/
def names (q : Query) : List String :=
  q.app :: (q.envs ++ (q.datacenter.toList ++ q.zone.toList))

/-- Where in an environment, as far as is known: a zone lies in a datacenter. -/
def site (q : Query) : List String :=
  match q.datacenter with
  | none => []
  | some datacenter => datacenter :: q.zone.toList

def fileName (q : Query) (format : FileFormat) : String := q.app ++ "." ++ format.extension

/-- The names that lead to the layers: for all environments to one, and for each environment to one
in its directory and at every step further down to the site. -/
def layerNames (q : Query) (format : FileFormat) : List (List String) :=
  [q.fileName format] :: q.envs.flatMap fun env =>
    q.site.inits.map fun within => env :: (within ++ [q.fileName format])

/-- The other query is about the same in a datacenter or zone that this one leaves open. -/
structure LeavesOpen (q q' : Query) : Prop where
  datacenter : q.datacenter = none ∨ q'.datacenter = q.datacenter
  zone : q.zone = none ∨ q'.zone = q.zone

variable {app : String} {envs done names : List String} {datacenter zone : Option String}
  {q q' : Query} {format : FileFormat}

/-- Environment names are taken over trimmed, if none of them is blank and none is there twice. -/
theorem addEnvs_eq_ok_iff (distinct : done.Nodup) : addEnvs done envs = .ok names ↔
    names = done ++ envs.map Text.trim ∧ names.Nodup ∧ ∀ env ∈ envs, Text.trim env ≠ "" := by
  induction envs generalizing done with
  | nil =>
    simp only [addEnvs, Except.ok.injEq, List.map_nil, List.append_nil]
    constructor
    · rintro rfl
      exact ⟨rfl, distinct, List.forall_mem_nil _⟩
    · exact fun found => found.1.symm
  | cons env rest ih =>
    rw [addEnvs, List.forall_mem_cons, List.map_cons,
      List.append_cons done (Text.trim env) (rest.map Text.trim)]
    split
    next blank =>
      rw [String.isEmpty_iff] at blank
      exact iff_of_false nofun fun found => found.2.2.1 blank
    next some =>
      rw [String.isEmpty_iff] at some
      split
      next known =>
        rw [List.contains_iff_mem] at known
        refine iff_of_false nofun ?_
        rintro ⟨rfl, once, -⟩
        exact (List.nodup_append.1 (List.nodup_append.1 once).1).2.2 _ known _
          (List.mem_singleton_self _) rfl
      next new =>
        rw [List.contains_iff_mem] at new
        rw [ih (List.concat_eq_append ▸ distinct.concat new)]
        exact and_congr_right fun _ => and_congr_right fun _ => (and_iff_right some).symm

theorem of_eq_ok_iff : of app envs datacenter zone = .ok q ↔
    q = ⟨Text.trim app, envs.map Text.trim, datacenter.bind Text.trimToOption,
      zone.bind Text.trimToOption⟩ ∧
    Text.trim app ≠ "" ∧ q.envs.Nodup ∧ ∀ env ∈ envs, Text.trim env ≠ "" := by
  rw [of]
  split
  next blank =>
    rw [String.isEmpty_iff] at blank
    exact iff_of_false nofun fun found => found.2.1 blank
  next some =>
    rw [String.isEmpty_iff] at some
    constructor
    · intro built
      cases added : addEnvs [] envs with
      | error e =>
        rw [added] at built
        cases built
      | ok names =>
        obtain ⟨rfl, once, each⟩ := (addEnvs_eq_ok_iff List.nodup_nil).1 added
        rw [added] at built
        cases built
        exact ⟨rfl, some, once, each⟩
    · rintro ⟨rfl, -, once, each⟩
      have added := (addEnvs_eq_ok_iff List.nodup_nil).2 ⟨rfl, once, each⟩
      rw [List.nil_append] at added
      rw [added]
      rfl

theorem nonempty_of_trimToOption {text name : String} (found : Text.trimToOption text = some name) :
    name ≠ "" := by
  rw [Text.trimToOption] at found
  split at found
  next => cases found
  next some =>
    rw [String.isEmpty_iff] at some
    cases found
    exact some

/-- No name in a query is empty. -/
theorem names_nonempty (built : of app envs datacenter zone = .ok q) :
    ∀ name ∈ q.names, name ≠ "" := by
  obtain ⟨rfl, app, -, envs⟩ := of_eq_ok_iff.1 built
  have optional {given : Option String} :
      ∀ name ∈ (given.bind Text.trimToOption).toList, name ≠ "" := by
    intro name member
    obtain ⟨text, -, found⟩ := Option.bind_eq_some_iff.1 (Option.mem_toList.1 member)
    exact nonempty_of_trimToOption found
  simp only [names, List.forall_mem_cons, List.forall_mem_append, List.forall_mem_map]
  exact ⟨app, envs, optional, optional⟩

/-! ### Layers -/

theorem prefix_site (further : q.LeavesOpen q') : q.site <+: q'.site := by
  obtain ⟨datacenter, zone⟩ := further
  rw [site, site]
  rcases datacenter with nowhere | same
  · rw [nowhere]
    exact List.nil_prefix
  · rw [same]
    cases q.datacenter with
    | none => exact List.nil_prefix
    | some datacenter =>
      refine (List.prefix_cons_inj _).2 ?_
      rcases zone with nowhere | same
      · rw [nowhere]
        exact List.nil_prefix
      · rw [same]

theorem layerPaths_eq (directory : String) (format : FileFormat) (q : Query) :
    layerPaths directory format q =
      (q.layerNames format).map fun names => names.foldl Files.join directory := by
  rw [layerPaths, layerNames, List.map_cons, List.map_flatMap]
  refine congrArg (_ :: ·) (congrArg (q.envs.flatMap ·) (funext fun env => ?_))
  rw [site, fileName]
  cases q.datacenter with
  | none => rfl
  | some datacenter =>
    cases q.zone with
    | none => rfl
    | some zone => rfl

theorem plain_fileName (some : q.app ≠ "") (whole : '/' ∉ q.app.toList) (format : FileFormat) :
    Files.Plain (q.fileName format) := by
  have long : 2 < (q.fileName format).length := by
    have first : q.app.length ≠ 0 := fun empty => some (String.length_eq_zero_iff.1 empty)
    have last : format.extension.length ≠ 0 := by cases format <;> decide
    rw [fileName, String.length_append, String.length_append]
    have point : ".".length = 1 := rfl
    omega
  constructor
  · intro empty
    rw [empty] at long
    cases long
  · have ending : '/' ∉ format.extension.toList := by cases format <;> decide
    simp [fileName, whole, ending]
  · intro here
    rw [here] at long
    exact absurd long (by decide)
  · intro above
    rw [above] at long
    exact absurd long (by decide)

theorem plain_layerNames (plain : ∀ name ∈ q.names, Files.Plain name) (format : FileFormat) :
    ∀ names ∈ q.layerNames format, ∀ name ∈ names, Files.Plain name := by
  simp only [Query.names, List.forall_mem_cons, List.forall_mem_append] at plain
  obtain ⟨app, envs, datacenter, zone⟩ := plain
  have file := plain_fileName app.nonempty app.whole format
  have site : ∀ name ∈ q.site, Files.Plain name := by
    rw [Query.site]
    cases known : q.datacenter with
    | none => exact List.forall_mem_nil _
    | some name =>
      exact List.forall_mem_cons.2 ⟨datacenter name (Option.mem_toList.2 known), zone⟩
  rw [layerNames, List.forall_mem_cons, List.forall_mem_flatMap]
  refine ⟨List.forall_mem_singleton.2 file, fun env among => List.forall_mem_map.2 ?_⟩
  intro within inits
  have along : within <+: q.site := (List.mem_inits _ _).1 inits
  refine List.forall_mem_cons.2 ⟨envs env among, List.forall_mem_append.2 ⟨?_, ?_⟩⟩
  · exact fun name member => site name (along.subset member)
  · exact List.forall_mem_singleton.2 file

/-- No two layers have the same names. -/
theorem nodup_layerNames (once : q.envs.Nodup) (format : FileFormat) :
    (q.layerNames format).Nodup := by
  rw [layerNames, List.nodup_cons]
  constructor
  · intro member
    obtain ⟨env, -, among⟩ := List.mem_flatMap.1 member
    obtain ⟨within, -, same⟩ := List.mem_map.1 among
    simp at same
  · rw [List.nodup_flatMap]
    constructor
    · intro env _
      refine (nodup_inits q.site).map fun within within' same => ?_
      exact List.append_cancel_right (List.cons.inj same).2
    · refine once.imp fun {env env'} other => ?_
      -- layers of two environments differ in the first name
      intro names here there
      obtain ⟨within, -, rfl⟩ := List.mem_map.1 here
      obtain ⟨within', -, same⟩ := List.mem_map.1 there
      exact other (List.cons.inj same).1.symm

/-- Layers of more environments come behind those that are there. -/
theorem prefix_layerPaths (more : List String) (app : q'.app = q.app)
    (envs : q'.envs = q.envs ++ more) (datacenter : q'.datacenter = q.datacenter)
    (zone : q'.zone = q.zone) (directory : String) (format : FileFormat) :
    layerPaths directory format q <+: layerPaths directory format q' := by
  have site : q'.site = q.site := by rw [Query.site, Query.site, datacenter, zone]
  have file : q'.fileName format = q.fileName format := by rw [fileName, fileName, app]
  rw [layerPaths_eq, layerPaths_eq, layerNames, layerNames, envs, site, file, List.flatMap_append,
    ← List.cons_append, List.map_append]
  exact List.prefix_append _ _

/-- Where a datacenter or zone becomes known, layers are put in between. -/
theorem layerPaths_sublist (app : q'.app = q.app) (envs : q'.envs = q.envs)
    (further : q.LeavesOpen q') (directory : String) (format : FileFormat) :
    (layerPaths directory format q).Sublist (layerPaths directory format q') := by
  have file : q'.fileName format = q.fileName format := by rw [fileName, fileName, app]
  rw [layerPaths_eq, layerPaths_eq, layerNames, layerNames, envs, file]
  refine List.Sublist.map _ (List.Sublist.cons_cons _ ?_)
  exact List.Sublist.flatMap_right _ fun env _ =>
    (prefix_inits (prefix_site further)).sublist.map _

/-- How the layers for a query lie in a directory. -/
structure Confined (q : Query) (directory : String) (format : FileFormat) : Prop where
  ordered : List.Forall₂ (Files.Leads directory) (layerPaths directory format q)
    (q.layerNames format)
  below : ∀ path ∈ layerPaths directory format q, Files.Below directory path
  distinct : ((layerPaths directory format q).map Files.components).Nodup

theorem confined (once : q.envs.Nodup) (plain : ∀ name ∈ q.names, Files.Plain name)
    (directory : String) (format : FileFormat) : q.Confined directory format := by
  have leads : ∀ names ∈ q.layerNames format,
      Files.Leads directory (names.foldl Files.join directory) names := fun names among =>
    Files.leads_of_plain (plain_layerNames plain format names among) directory
  constructor
  · rw [layerPaths_eq, List.forall₂_map_left_iff, List.forall₂_same]
    exact leads
  · rw [layerPaths_eq, List.forall_mem_map]
    intro names among
    refine ⟨names, ?_, leads names among⟩
    rintro rfl
    simp [layerNames] at among
  · have components : (layerPaths directory format q).map Files.components =
        (q.layerNames format).map (Files.components directory ++ ·) := by
      rw [layerPaths_eq, List.map_map]
      exact List.map_congr_left fun names among => (leads names among).components
    rw [components]
    exact (nodup_layerNames once format).map (List.append_right_injective _)

end Query

namespace Secret

/-- The key is a plain name, for those as well who take a backslash for a slash. -/
structure Proper (key : String) : Prop where
  plain : Files.Plain key
  straight : '\\' ∉ key.toList

/-- What asking for a key comes to: an improper key is refused whatever files there are, and for a
proper one a single file is read, which lies in the directory. -/
inductive Guarded (directory key : String) : Prop
  | refused (improper : ¬ Proper key)
      (untouched : ∀ read, fromFiles directory read key = .error (.invalidSettings
        ("secret key '" ++ key ++ "' is not a plain file name")))
  | reads (proper : Proper key) (path : String) (child : Files.Leads directory path [key])
      (gives : ∀ read, fromFiles directory read key = match read path with
        | .ok content => .ok (Text.trim content)
        | .error fault => .error (.file path fault))

theorem proper_iff (key : String) : Proper key ↔
    (key.isEmpty || key.toList.any (fun c => c == '/' || c == '\\') || key == ".." ||
      key == ".") = false := by
  simp only [Bool.or_eq_false_iff, List.any_eq_false, Bool.or_eq_true, beq_iff_eq, not_or,
    beq_eq_false_iff_ne, ne_eq, String.isEmpty_eq_false_iff]
  constructor
  · rintro ⟨⟨some, whole, notHere, notAbove⟩, straight⟩
    refine ⟨⟨⟨some, fun c member => ⟨?_, ?_⟩⟩, notAbove⟩, notHere⟩
    · rintro rfl
      exact whole member
    · rintro rfl
      exact straight member
  · rintro ⟨⟨⟨some, each⟩, notAbove⟩, notHere⟩
    exact ⟨⟨some, fun slash => (each _ slash).1 rfl, notHere, notAbove⟩,
      fun backslash => (each _ backslash).2 rfl⟩

theorem guarded (directory key : String) : Guarded directory key := by
  cases test : (key.isEmpty || key.toList.any (fun c => c == '/' || c == '\\') || key == ".." ||
      key == ".") with
  | false =>
    have proper := (proper_iff key).2 test
    have path : filePath directory key = .ok (Files.join directory key) := by
      rw [filePath, test, if_neg Bool.false_ne_true]
    refine .reads proper (Files.join directory key)
      (Files.leads_of_plain (List.forall_mem_singleton.2 proper.plain) directory) fun read => ?_
    rw [fromFiles, path]
    change (match read (Files.join directory key) with
      | .ok content => pure (Text.trim content)
      | .error fault => throw (ConfigError.file (Files.join directory key) fault)) = _
    cases read (Files.join directory key) <;> rfl
  | true =>
    have improper : ¬ Proper key := fun proper => by
      rw [(proper_iff key).1 proper] at test
      cases test
    refine .refused improper fun read => ?_
    rw [fromFiles, filePath, test, if_pos rfl]
    rfl

end Secret

/-! ### Main statement -/

/-- The layers for a query lie below the directory, told apart and in order, and stay in order if
the query is extended; and a provider of secrets reads nothing but files in its directory. -/
theorem confined_below_directory {app : String} {envs : List String}
    {datacenter zone : Option String} {q : Query} (directory : String) (format : FileFormat)
    (built : Query.of app envs datacenter zone = .ok q)
    (separate : ∀ name ∈ q.names, '/' ∉ name.toList ∧ name ≠ "." ∧ name ≠ "..") :
    q.Confined directory format ∧
    (∀ more q', Query.of app (envs ++ more) datacenter zone = .ok q' →
      layerPaths directory format q <+: layerPaths directory format q') ∧
    (∀ datacenter' zone' q', Query.of app envs datacenter' zone' = .ok q' → q.LeavesOpen q' →
      (layerPaths directory format q).Sublist (layerPaths directory format q')) ∧
    ∀ key, Secret.Guarded directory key := by
  have plain : ∀ name ∈ q.names, Files.Plain name := fun name member =>
    ⟨Query.names_nonempty built name member, (separate name member).1, (separate name member).2.1,
      (separate name member).2.2⟩
  obtain ⟨asked, -, once, -⟩ := Query.of_eq_ok_iff.1 built
  refine ⟨Query.confined once plain directory format, ?_, ?_, Secret.guarded directory⟩
  · intro more q' longer
    obtain ⟨asked', -⟩ := Query.of_eq_ok_iff.1 longer
    refine Query.prefix_layerPaths (more.map Text.trim) ?_ ?_ ?_ ?_ directory format
    · rw [asked, asked']
    · rw [asked, asked', List.map_append]
    · rw [asked, asked']
    · rw [asked, asked']
  · intro datacenter' zone' q' other further
    obtain ⟨asked', -⟩ := Query.of_eq_ok_iff.1 other
    refine Query.layerPaths_sublist ?_ ?_ further directory format
    · rw [asked, asked']
    · rw [asked, asked']

/-- A query with two environments in a datacenter, in a directory with a slash at its end. A third
environment, a zone and the directory above as a key of a secret. -/
theorem confined_below_directory_conf :
    let q : Query := ⟨"svc", ["prod", "canary"], some "dc1", none⟩
    let longer : Query := ⟨"svc", ["prod", "canary", "dev"], some "dc1", none⟩
    let further : Query := ⟨"svc", ["prod", "canary"], some "dc1", some "a"⟩
    Query.of " svc" ["prod", "canary "] (some "dc1") (some " ") = .ok q ∧
    (∀ name ∈ q.names, '/' ∉ name.toList ∧ name ≠ "." ∧ name ≠ "..") ∧
    q.Confined "/conf/" .json ∧
    layerPaths "/conf/" .json q <+: layerPaths "/conf/" .json longer ∧
    (layerPaths "/conf/" .json q).Sublist (layerPaths "/conf/" .json further) ∧
    Secret.Guarded "/conf/" ".." := by
  intro q longer further
  have built : Query.of " svc" ["prod", "canary "] (some "dc1") (some " ") = .ok q := rfl
  have separate : ∀ name ∈ q.names, '/' ∉ name.toList ∧ name ≠ "." ∧ name ≠ ".." := by decide
  obtain ⟨confined, appended, inserted, guarded⟩ :=
    confined_below_directory "/conf/" .json built separate
  refine ⟨built, separate, confined, appended ["dev"] longer rfl, ?_, guarded ".."⟩
  exact inserted (some "dc1") (some "a") further rfl ⟨.inr rfl, .inl rfl⟩

end LayeredConfig
