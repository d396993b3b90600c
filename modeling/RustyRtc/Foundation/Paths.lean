import Mathlib.Data.List.Infix
import RustyRtc.Foundation.Text

/-! # Paths

Paths of a system with one root and slashes between the names, and the places they lead to. A place is the
list of names from the root; links are not followed. Going up from the root leads nowhere else.
-/
namespace RustyRtc.Path
variable {cs : List Component} {place : Place}
inductive Component where
  | curDir
  | parentDir
  | normal (name : Text)
  deriving DecidableEq, Repr

/-- What stands between two slashes. Nothing and a single dot are no component. -/
def component (part : Text) : Option Component :=
  if part = [] ∨ part = ['.'] then none
  else if part = ['.','.'] then some .parentDir
  else some (.normal part)
def further (path : Text) : List Component := (path.splitOn '/').filterMap component
def isAbsolute (path : Text) : Bool := path.head? = some '/'

/-- A dot counts at the start of a relative path only. -/
def components (path : Text) : List Component :=
  if (path.splitOn '/').head? = some ['.'] then .curDir :: further path else further path
def fileName (path : Text) : Option Text :=
  match (components path).getLast? with
  | some (.normal name) => some name
  | _ => none

/-- A name up to its last dot. A dot in front belongs to the name. -/
def fileStem (name : Text) : Text :=
  if '.' ∈ name.tail then ((name.reverse.dropWhile (· ≠ '.')).drop 1).reverse else name

/-- What stands behind the last dot is replaced, or added. -/
def withExtension (name extension : Text) : Text := fileStem name ++ '.' :: extension

/-- An absolute second part replaces the first. -/
def join (base path : Text) : Text :=
  if isAbsolute path then path
  else if base = [] ∨ base.getLast? = some '/' then base ++ path
  else base ++ '/' :: path

abbrev Place := List Text
def go (place : Place) : Component → Place
  | .curDir => place
  | .parentDir => place.dropLast
  | .normal name => place ++ [name]
def walk (place : Place) (components : List Component) : Place := components.foldl go place
def start (cwd : Place) (path : Text) : Place := if isAbsolute path then [] else cwd
def resolve (cwd : Place) (path : Text) : Place := walk (start cwd path) (components path)

/-- The places on the way to a path's last component, in the order in which missing ones have to be made. -/
def ancestors (cwd : Place) (path : Text) : List Place :=
  (components path).dropLast.inits.tail.map (walk (start cwd path))

/-- The place is the directory or below it. -/
def Inside (dir place : Place) : Prop := dir <+: place
instance (dir place : Place) : Decidable (Inside dir place) := inferInstanceAs (Decidable (dir <+: place))
theorem walk_append (place : Place) (cs ds : List Component) : walk place (cs ++ ds) = walk (walk place cs) ds :=
  List.foldl_append

/-- From `depth` names below a directory the components never lead out of it. -/
def Stays : ℕ → List Component → Prop
  | _,[] => True
  | depth, .curDir :: cs => Stays depth cs
  | depth, .normal _ :: cs => Stays (depth + 1) cs
  | 0, .parentDir :: _ => False
  | depth + 1, .parentDir :: cs => Stays depth cs
instance Stays.decidable : ∀ depth cs, Decidable (Stays depth cs)
  | _,[] => isTrue trivial
  | depth, .curDir :: cs => Stays.decidable depth cs
  | depth, .normal _ :: cs => Stays.decidable (depth + 1) cs
  | 0, .parentDir :: _ => isFalse id
  | depth + 1, .parentDir :: cs => Stays.decidable depth cs

theorem Stays.of_append {depth : ℕ} {ds : List Component} (h : Stays depth (cs ++ ds)) : Stays depth cs := by
  fun_induction Stays depth cs with
  | case1 => trivial
  | case2 depth cs ih => exact ih h
  | case3 depth name cs ih => exact ih h
  | case4 => exact h
  | case5 depth cs ih => exact ih h

theorem Stays.inside (dir below : Place) (h : Stays below.length cs) : Inside dir (walk (dir ++ below) cs) := by
  induction cs generalizing below with
  | nil => exact List.prefix_append dir below
  | cons c cs ih =>
    cases c with
    | curDir => exact ih _ h
    | normal name =>
      have hlength : (below ++ [name]).length = below.length + 1 := by simp
      rw [Stays,← hlength] at h
      simpa only [walk,List.foldl_cons,go,List.append_assoc] using ih _ h
    | parentDir =>
      rcases List.eq_nil_or_concat below with rfl | ⟨front,name,rfl⟩
      · exact absurd h id
      · rw [List.concat_eq_append,List.length_append,List.length_singleton,Stays] at h
        have hgo : go (dir ++ (front ++ [name])) .parentDir = dir ++ front := by
          rw [go,← List.append_assoc,List.dropLast_concat]
        simpa only [walk,List.foldl_cons,List.concat_eq_append,hgo] using ih _ h

/-- A relative path that never leaves the directory it starts from. -/
def Confined (path : Text) : Prop := isAbsolute path = false ∧ Stays 0 (further path)
instance (path : Text) : Decidable (Confined path) := inferInstanceAs (Decidable (_ ∧ _))
def way (cwd : Place) (path : Text) : List Place := (components path).inits.tail.map (walk (start cwd path))
theorem walk_components (place : Place) (path : Text) : walk place (components path) = walk place (further path) := by
  rw [components]
  split <;> rfl
theorem further_append_slash (base path : Text) : further (base ++ '/' :: path) = further base ++ further path := by
  rw [further,further,further,List.splitOn_append_cons_self,List.filterMap_append]

theorem components_append_slash (base path : Text) :
    components (base ++ '/' :: path) = components base ++ further path := by
  have hhead : ((base ++ '/' :: path).splitOn '/').head? = (base.splitOn '/').head? := by
    rw [List.splitOn_append_cons_self,List.head?_append_of_ne_nil]
    exact List.splitOn_ne_nil _ _
  rw [components,components,hhead,further_append_slash]
  split <;> rfl

variable {cwd : Place} {base path : Text}

/-- Joining a relative path: the base's components come first, a dot in front of the path is dropped unless the
base is empty. -/
theorem components_join (cwd : Place) (base : Text) (h : isAbsolute path = false) :
    (base = [] ∧ join base path = path) ∨
      (start cwd (join base path) = start cwd base ∧ components (join base path) = components base ++ further path) := by
  rw [join,if_neg (by simp [h])]
  by_cases hnil : base = []
  · exact .inl ⟨hnil,by simp [hnil]⟩
  · obtain ⟨c,rest,rfl⟩ := List.exists_cons_of_ne_nil hnil
    by_cases hlast : (c :: rest).getLast? = some '/'
    · -- the slash is already there
      obtain ⟨front,hfront⟩ := List.getLast?_eq_some_iff.mp hlast
      rw [if_pos (.inr hlast)]
      refine .inr ⟨rfl,?_⟩
      rw [hfront,List.append_assoc,List.singleton_append,components_append_slash,components_append_slash]
      simp [further,component]
    · rw [if_neg (by simp [hlast])]
      exact .inr ⟨rfl,components_append_slash _ _⟩

theorem resolve_join (h : isAbsolute path = false) :
    resolve cwd (join base path) = walk (resolve cwd base) (further path) := by
  rcases components_join cwd base h with ⟨rfl,hjoin⟩ | ⟨hstart,hcomponents⟩
  · rw [hjoin,resolve,walk_components,start,h]
    rfl
  · rw [resolve,hstart,hcomponents,walk_append,resolve]

theorem mem_tail_inits {α : Type*} {front l : List α} : front ∈ l.inits.tail ↔ front ≠ [] ∧ front <+: l := by
  cases l with
  | nil => simp
  | cons a l =>
    rw [List.inits_cons,List.tail_cons,List.mem_map]
    constructor
    · rintro ⟨rest,hrest,rfl⟩
      exact ⟨by simp,List.cons_prefix_cons.mpr ⟨rfl,(List.mem_inits _ _).mp hrest⟩⟩
    · rintro ⟨hne,hfront⟩
      obtain ⟨b,rest,rfl⟩ := List.exists_cons_of_ne_nil hne
      obtain ⟨rfl,hrest⟩ := List.cons_prefix_cons.mp hfront
      exact ⟨rest,(List.mem_inits _ _).mpr hrest,rfl⟩

theorem exists_of_mem_ancestors (h : place ∈ ancestors cwd path) :
    ∃ front, front ≠ [] ∧ front <+: components path ∧ place = walk (start cwd path) front := by
  obtain ⟨front,hfront,rfl⟩ := List.mem_map.mp h
  obtain ⟨hne,hle⟩ := mem_tail_inits.mp hfront
  exact ⟨front,hne,hle.trans (List.dropLast_prefix _),rfl⟩
theorem Stays.of_further (h : Stays 0 (further path)) : Stays 0 (components path) := by
  rw [components]
  split
  · exact h
  · exact h
theorem Stays.inside_walk {front : List Component} (h : Stays 0 cs) (hfront : front <+: cs) (dir : Place) :
    Inside dir (walk dir front) := by
  obtain ⟨rest,rfl⟩ := hfront
  simpa using Stays.inside dir [] h.of_append

/-- A confined path joined to a directory leads into the directory. -/
theorem Confined.inside_resolve (h : Confined path) : Inside (resolve cwd base) (resolve cwd (join base path)) := by
  rw [resolve_join h.1]
  exact h.2.inside_walk List.prefix_rfl _

/-- On the way there are the directory's own way and places inside of it. -/
theorem Confined.inside_ancestor (h : Confined path) (hp : place ∈ ancestors cwd (join base path)) :
    place ∈ way cwd base ∨ Inside (resolve cwd base) place := by
  obtain ⟨front,hne,hfront,rfl⟩ := exists_of_mem_ancestors hp
  rcases components_join cwd base h.1 with ⟨rfl,hjoin⟩ | ⟨hstart,hcomponents⟩
  · -- without a base the path is followed from the current directory
    rw [hjoin] at hfront ⊢
    rw [start,h.1]
    exact .inr (h.2.of_further.inside_walk hfront cwd)
  · rw [hcomponents] at hfront
    rw [hstart]
    obtain ⟨behind,hbehind⟩ := hfront
    rcases List.append_eq_append_iff.mp hbehind with ⟨rest,hbase,-⟩ | ⟨rest,rfl,hrest⟩
    · exact .inl (List.mem_map.mpr ⟨front,mem_tail_inits.mpr ⟨hne,rest,hbase.symm⟩,rfl⟩)
    · rw [walk_append]
      exact .inr (h.2.inside_walk ⟨behind,hrest.symm⟩ _)
end RustyRtc.Path
