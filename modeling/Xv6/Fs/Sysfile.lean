import Xv6.Fs.Path

namespace Xv6.Fs
def fetchstr (str : Nat → Option UInt8) : Nat → Nat → Option Path
  | 0, _ => none
  | max + 1, k =>
    match str k with
    | none => none
    | some c => if c = 0 then some [] else (fetchstr str max (k + 1)).map (c :: ·)

def argstr (str : Nat → Option UInt8) : Option Path := fetchstr str maxpath 0

namespace Dinode
def incLink (x : Dinode) : Dinode := { x with nlink := (x.nlink + 1) % 2 ^ 16 }

def decLink (x : Dinode) : Dinode :=
  { x with nlink := if x.nlink = 0 then 2 ^ 16 - 1 else x.nlink - 1 }

def links (x : Dinode) : Int := if x.nlink < 2 ^ 15 then x.nlink else x.nlink - 2 ^ 16
end Dinode

variable (sb : Superblock)

section
variable (dp ip : Fin ninode)

def linkDots : FsM Int := do
  let e ← inode ip
  let r ← dirlink sb ip dot e.inum
  if r < 0 then return -1
  else
    let d ← inode dp
    dirlink sb ip dotdot d.inum

def createFail : FsM (Option (Fin ninode)) := do
  update sb ip fun x => { x with nlink := 0 }
  iunlockput sb ip
  iunlockput sb dp
  return none

def createNew (name : Name) (type major minor : Nat) : FsM (Option (Fin ninode)) := do
  ilock sb ip
  update sb ip fun x => { x with major := major, minor := minor, nlink := 1 }
  let r ← (if type = tDir then linkDots sb dp ip else pure 0)
  if r < 0 then createFail sb dp ip
  else
    let e ← inode ip
    let r ← dirlink sb dp name e.inum
    if r < 0 then createFail sb dp ip
    else
      (if type = tDir then update sb dp Dinode.incLink else pure ())
      iunlockput sb dp
      return some ip

def createOld (type : Nat) : FsM (Option (Fin ninode)) := do
  iunlockput sb dp
  ilock sb ip
  let e ← inode ip
  if type = tFile ∧ (e.copy.type = tFile ∨ e.copy.type = tDevice) then return some ip
  else
    iunlockput sb ip
    return none
end

def create (cwd : Fin ninode) (path : Path) (type major minor : Nat) :
    FsM (Option (Fin ninode)) := do
  let r ← nameiparent sb cwd path
  match r with
  | none => return none
  | some (dp, name) =>
    ilock sb dp
    let r ← dirlookup sb dp name
    match r with
    | some (ip, _) => createOld sb dp ip type
    | none =>
      let r ← ialloc sb type
      match r with
      | none =>
        iunlockput sb dp
        return none
      | some ip => createNew sb dp ip name type major minor

section
variable (cwd : Fin ninode) (path : Nat → Option UInt8)

def sysCreate (type major minor : Nat) : FsM Int := do
  match argstr path with
  | none => return -1
  | some path =>
    let r ← create sb cwd path type major minor
    match r with
    | none => return -1
    | some ip =>
      iunlockput sb ip
      return 0

def sysMkdir : FsM Int :=
  sysCreate sb cwd path tDir 0 0

def sysMknod (major minor : Int) : FsM Int :=
  sysCreate sb cwd path tDevice (major % 2 ^ 16).toNat (minor % 2 ^ 16).toNat
end

def linkBad (ip : Fin ninode) : FsM Int := do
  ilock sb ip
  update sb ip Dinode.decLink
  iunlockput sb ip
  return -1

def linkName (cwd ip : Fin ninode) (new : Path) : FsM Int := do
  let r ← nameiparent sb cwd new
  match r with
  | none => linkBad sb ip
  | some (dp, name) =>
    ilock sb dp
    let e ← inode ip
    let r ← dirlink sb dp name e.inum
    iunlockput sb dp
    if r < 0 then linkBad sb ip
    else
      iput sb ip
      return 0

def sysLink (cwd : Fin ninode) (old new : Nat → Option UInt8) : FsM Int := do
  match argstr old, argstr new with
  | some old, some new =>
    let r ← namei sb cwd old
    match r with
    | none => return -1
    | some ip =>
      ilock sb ip
      let e ← inode ip
      if e.copy.type = tDir then
        iunlockput sb ip
        return -1
      else
        update sb ip Dinode.incLink
        linkName sb cwd ip new
  | _, _ => return -1

def isdiremptyLoop (dp : Fin ninode) : Nat → Nat → FsM Bool
  | 0, _ => return true
  | fuel + 1, off => do
    let e ← inode dp
    if off < e.copy.size then
      let r ← readEntry sb dp off
      if r.1 ≠ 16 then throw .isdiremptyReadi
      else if (Dirent.ofBytes r.2).inum ≠ 0 then return false
      else isdiremptyLoop dp fuel (off + 16)
    else return true

def isdirempty (dp : Fin ninode) : FsM Bool := do
  let e ← inode dp
  isdiremptyLoop sb dp (e.copy.size / 16 + 1) 32

def removeName (dp ip : Fin ninode) (off : Nat) : FsM Int := do
  let n ← writei sb dp (fun _ => some 0) off 16
  if n ≠ 16 then throw .unlinkWritei
  else
    let e ← inode ip
    (if e.copy.type = tDir then update sb dp Dinode.decLink else pure ())
    iunlockput sb dp
    update sb ip Dinode.decLink
    iunlockput sb ip
    return 0

def unlinkEntry (dp ip : Fin ninode) (off : Nat) : FsM Int := do
  ilock sb ip
  let e ← inode ip
  if e.copy.links < 1 then throw .unlinkNlink
  else
    let empty ← (if e.copy.type = tDir then isdirempty sb ip else pure true)
    if empty = false then
      iunlockput sb ip
      iunlockput sb dp
      return -1
    else removeName sb dp ip off

def sysUnlink (cwd : Fin ninode) (path : Nat → Option UInt8) : FsM Int := do
  match argstr path with
  | none => return -1
  | some path =>
    let r ← nameiparent sb cwd path
    match r with
    | none => return -1
    | some (dp, name) =>
      ilock sb dp
      if name = dot ∨ name = dotdot then
        iunlockput sb dp
        return -1
      else
        let r ← dirlookup sb dp name
        match r with
        | none =>
          iunlockput sb dp
          return -1
        | some (ip, off) => unlinkEntry sb dp ip off
end Xv6.Fs
