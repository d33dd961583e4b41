import Xv6.Fs.Directory

/-!
# Paths

`skipelem` cuts the next element off a path and `namex` walks from directory to directory. A
path is given by its characters before the terminating zero, a pointer into it by what is left of
them.
-/

namespace Xv6

abbrev slash : UInt8 := 47

/-- What `skipelem` stores in `name` for an element: it ends it with a zero if there is room. -/
def copyElem (elem : List UInt8) (name : CString) : CString :=
  if DIRSIZ ≤ elem.length then Bytes.store name 0 DIRSIZ fun i => elem.getD i 0
  else Function.update (Bytes.store name 0 elem.length fun i => elem.getD i 0) elem.length 0

def skipelem (path : List UInt8) (name : CString) : Option (List UInt8 × CString) :=
  match path.dropWhile (· == slash) with
  | [] => none
  | s =>
      let elem := s.takeWhile (· != slash)
      let path := (s.dropWhile (· != slash)).dropWhile (· == slash)
      some (path, copyElem elem name)

namespace FsState

variable (sb : Superblock) (devsw : Devsw) (p : Slot)

/-- The loop of `namex` and what comes after it. Each iteration takes a character at least. -/
def walk (nameiparent : Bool) : ℕ → List UInt8 → CString → InodeId → FsState →
    Except FsStop (Option InodeId × CString × FsState)
  | 0, _, _, _, _ => .error .looping
  | fuel + 1, path, name, ip, state =>
      match skipelem path name with
      | none =>
          if nameiparent then do
            let state ← state.iput sb p ip
            return (none, name, state)
          else return (some ip, name, state)
      | some (path, name) => do
          let state ← state.ilock sb p ip
          if (state.icache ip).type ≠ T_DIR then
            let state ← state.iunlockput sb p ip
            return (none, name, state)
          else if nameiparent ∧ path = [] then
            -- stop one level early
            let state ← state.iunlock p ip
            return (some ip, name, state)
          else
            let (found, state) ← state.dirlookup sb devsw ip name
            let state ← state.iunlockput sb p ip
            match found with
            | none => return (none, name, state)
            | some (next, _) => walk nameiparent fuel path name next state

/-- The inode where `namex` begins, with a reference. -/
def walkStart (cwd : InodeId) (path : List UInt8) (state : FsState) :
    Except FsStop (InodeId × FsState) :=
  if path.head? = some slash then state.iget ROOTDEV ROOTINO else .ok (cwd, state.idup cwd)

end FsState

/-! ## Elements -/

section Components

variable {path rest elem : List UInt8} {name name' : CString}

end Components

end Xv6
