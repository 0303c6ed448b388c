import Mathlib.Data.List.Basic

/-! # File trees

What a file system is for: directories whose children have names, over files with their
content and other things of which something is known. A path is looked up from directory
to directory, and of two children of one name the first one counts. -/

namespace Ext4tc.Lib

inductive FileTree (N C S : Type) where
  | file (content : C)
  | special (about : S)
  | dir (children : List (N × FileTree N C S))

namespace FileTree

variable {N C S : Type} [DecidableEq N]

def find (c : N) : FileTree N C S → Option (FileTree N C S)
  | .dir children => (children.find? fun child => child.1 = c).map Prod.snd
  | _ => none

def lookup : FileTree N C S → List N → Option (FileTree N C S)
  | tree, [] => some tree
  | tree, c :: cs => (tree.find c).bind fun child => child.lookup cs

theorem find_some {tree child : FileTree N C S} {c : N} (h : tree.find c = some child) :
    ∃ (children : List (N × FileTree N C S)) (i : Nat), tree = .dir children ∧
      children[i]? = some (c, child) := by
  cases tree with
  | file => cases h
  | special => cases h
  | dir children =>
    obtain ⟨⟨c', child'⟩, hfind, rfl⟩ := Option.map_eq_some_iff.mp h
    obtain rfl : c' = c := by simpa using List.find?_some hfind
    obtain ⟨i, hi⟩ := List.mem_iff_getElem?.mp (List.mem_of_find?_eq_some hfind)
    exact ⟨children, i, rfl, hi⟩

theorem lookup_dir {tree : FileTree N C S} {cs : List N} {children : List (N × FileTree N C S)}
    (h : tree.lookup cs = some (.dir children)) : ∃ own, tree = .dir own := by
  cases cs with
  | nil => exact ⟨children, Option.some.inj h⟩
  | cons c cs =>
    obtain ⟨child, hchild, -⟩ := Option.bind_eq_some_iff.mp h
    obtain ⟨own, -, rfl, -⟩ := find_some hchild
    exact ⟨own, rfl⟩

theorem lookup_concat {tree child : FileTree N C S} {cs : List N} {c : N}
    (h : tree.lookup (cs ++ [c]) = some child) :
    ∃ children, tree.lookup cs = some (.dir children) ∧
      (FileTree.dir children).find c = some child := by
  induction cs generalizing tree with
  | nil =>
    obtain ⟨child', hchild, hend⟩ := Option.bind_eq_some_iff.mp h
    obtain rfl := Option.some.inj hend
    obtain ⟨children, -, rfl, -⟩ := find_some hchild
    exact ⟨children, rfl, hchild⟩
  | cons c' cs ih =>
    obtain ⟨next, hnext, hrest⟩ := Option.bind_eq_some_iff.mp h
    obtain ⟨children, hlookup, hchild⟩ := ih hrest
    exact ⟨children, Option.bind_eq_some_iff.mpr ⟨next, hnext, hlookup⟩, hchild⟩

end FileTree

end Ext4tc.Lib
