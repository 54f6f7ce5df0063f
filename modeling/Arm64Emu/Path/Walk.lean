import Mathlib.Data.List.DropRight
import Mathlib.Logic.Relation
import Arm64Emu.Mount.Binds

namespace arm64emu

/-- A name below the path so far. -/
def canon_push (canon comp : Path) : Except Int Path :=
  if canon.length + 1 + comp.length + 1 > PATH_MAX then .error (-ENAMETOOLONG)
  else .ok ((if canon.length > 1 then canon ++ ['/'] else canon.take 1) ++ comp)

/-- The parent of the path so far. -/
def canon_pop (canon : Path) : Path :=
  let upto := canon.rdropWhile (· != '/')
  if upto.length ≤ 1 then ['/'] else upto.dropLast

def count_names : Path → Nat
  | [] => 0
  | [_] => 0
  | c :: d :: cs => (if c = '/' ∧ d ≠ '/' then 1 else 0) + count_names (d :: cs)

def canon_depth (canon root : Path) : Int :=
  count_names (if root.length > 1 ∧ root.isPrefixOf canon then canon.drop root.length else canon)

def path_wants_dir (s : Path) : Bool :=
  if s = [] then false
  else if s.getLast? = some '/' then true
  else
    let base := s.rtakeWhile (· != '/')
    base == ['.'] || base == ['.', '.']

/-- The next component of the path still to process, and what is left after it. -/
def next_comp (p : Path) : Option (Path × Path) :=
  let p := p.dropWhile (· == '/')
  if p = [] then none else some (p.takeWhile (· != '/'), p.dropWhile (· != '/'))

section walk

/-- What `path_proc_magic` says of a path: nothing, an error, the guest target of
a `/proc` link, or the last path of a working directory since unlinked. -/
inductive ProcMagic where
  | none
  | fail (e : Int)
  | link (tgt : Path)
  | gone (tgt : Path)

/-- What the walk reads besides the path: the machine and its mounts, the guest's root, the `/proc` links, the host's
answers and the flags of the call. -/
structure WalkEnv where
  m : Machine
  tab : BindTab
  croot : Path
  path_proc_magic : Path → ProcMagic
  host_fd_guest_path : Path → Except Int Path
  readlink : Path → Option Path
  stat : Path → Except Int Bool
  nofollow_last : Bool
  creating : Bool

/-- Where the walk is: the path so far, the text to go and the links followed. -/
structure WalkState where
  canon : Path
  p : Path
  want_dir : Bool
  nlinks : Nat
  depth : Int
  trusted : Int
  cwd_gone : Bool

variable (env : WalkEnv)

def WalkState.pop (s : WalkState) : WalkState :=
  { s with canon := canon_pop s.canon, depth := s.depth - 1, trusted := min s.trusted (s.depth - 1) }

/-- A `..`: nothing at the root; elsewhere the component it cancels has to be a
directory, unless the walk started in it. -/
def walk_up (s : WalkState) : Except Int WalkState :=
  if s.canon = env.croot then .ok s
  else if s.depth > s.trusted then
    match canon_to_host env.m env.tab s.canon with
    | .error e => .error e
    | .ok hostbuf =>
      match env.stat hostbuf with
      | .error e => .error e
      | .ok isdir => if isdir then .ok s.pop else .error (-ENOTDIR)
  else .ok s.pop

/-- The target of a link replaces it, and the path still to process follows. -/
def walk_splice (s : WalkState) (tgt : Path) : Except Int WalkState :=
  if s.nlinks + 1 > 40 then .error (-ELOOP)
  else if tgt.length + s.p.length + 1 > PATH_MAX then .error (-ENAMETOOLONG)
  else
    let s := { s with p := tgt ++ s.p, want_dir := path_wants_dir (tgt ++ s.p), nlinks := s.nlinks + 1 }.pop
    .ok (if tgt.head? = some '/' then { s with canon := env.croot, depth := 0, trusted := 0 } else s)

def walk_magic (canon hostbuf : Path) : ProcMagic :=
  match env.path_proc_magic canon with
  | .none => if proc_zone_path hostbuf then env.path_proc_magic hostbuf else .none
  | magic => magic

/-- A component just appended to the canonical path: spliced if it is a link. -/
def walk_link (s : WalkState) (last : Bool) : Except Int WalkState :=
  match canon_to_host env.m env.tab s.canon with
  | .error e => .error e
  | .ok hostbuf =>
    match walk_magic env s.canon hostbuf with
    | .fail e => .error e
    | .gone tgt =>
      if s.nlinks + 1 > 40 then .error (-ELOOP)
      else
        let depth := canon_depth tgt env.croot
        .ok { s with nlinks := s.nlinks + 1, canon := tgt, depth, trusted := depth, cwd_gone := true }
    | .link tgt => walk_splice env s tgt
    | .none =>
      match env.readlink hostbuf with
      | none => .ok s
      | some tgt =>
        if proc_zone_path hostbuf then
          -- the target is a host path: the host follows it if nothing is left to walk
          if last || tgt.head? != some '/' then .ok s
          else
            match env.host_fd_guest_path tgt with
            | .error _ => .error (-ENAMETOOLONG)
            | .ok gview =>
              if gview.length + 1 > PATH_MAX then .error (-ENAMETOOLONG) else walk_splice env s gview
        else walk_splice env s tgt

/-- One name: a link is followed, anything else pushed. -/
def walk_name (s : WalkState) (comp : Path) (last : Bool) : Except Int WalkState :=
  match canon_push s.canon comp with
  | .error e => .error e
  | .ok canon =>
    let s := { s with canon, depth := s.depth + 1 }
    if last && env.nofollow_last && !s.want_dir then .ok s else walk_link env s last

/-- One round of the loop of `path_walk`; no state once nothing is left to
process. -/
def walk_step (s : WalkState) : Except Int (Option WalkState) :=
  match next_comp s.p with
  | none => .ok none
  | some (comp, p) =>
    if comp.length ≥ PATH_MAX then .error (-ENAMETOOLONG)
    else if comp = ['.'] then .ok (some { s with p })
    else if s.cwd_gone && comp != ['.', '.'] then .error (-ENOENT)
    else
      let s := { s with p, cwd_gone := false }
      (if comp = ['.', '.'] then walk_up env s else walk_name env s comp (p.all (· == '/'))).map some

/-- The rounds of the walk. -/
def walk_loop : Nat → WalkState → Option (Except Int WalkState)
  | 0, _ => none
  | fuel + 1, s =>
    match walk_step env s with
    | .error e => some (.error e)
    | .ok none => some (.ok s)
    | .ok (some s') => walk_loop fuel s'

/-- The host path of where the walk ended. -/
def walk_finish (s : WalkState) : Except Int (Path × Path) :=
  if s.cwd_gone then .ok (['.'], s.canon)
  else
    match canon_to_host env.m env.tab s.canon with
    | .error e => .error e
    | .ok host =>
      if s.want_dir then
        match env.stat host with
        | .ok isdir => if isdir then .ok (host, s.canon) else .error (-ENOTDIR)
        | .error _ => if env.creating then .error (-EISDIR) else .ok (host, s.canon)
      else .ok (host, s.canon)

def walk_start (canon gpath : Path) (cwd_gone : Bool) : WalkState :=
  { canon, p := gpath, want_dir := path_wants_dir gpath, nlinks := 0, depth := canon_depth canon env.croot,
    trusted := canon_depth canon env.croot, cwd_gone }

/-- Resolve a guest path. A relative one starts at `dir`, the path of the working
directory or of the directory descriptor and whether it was unlinked. -/
def path_walk (dir : Except Int (Path × Bool)) (gpath : Path) (fuel : Nat) :
    Option (Except Int (Path × Path)) :=
  if gpath = [] then some (.error (-ENOENT))
  else
    match (if gpath.head? = some '/' then .ok (env.croot, false) else dir) with
    | .error e => some (.error e)
    | .ok (canon, cwd_gone) =>
      if gpath.length + 1 > PATH_MAX then some (.error (-ENAMETOOLONG))
      else (walk_loop env fuel (walk_start env canon gpath cwd_gone)).map fun r => r.bind (walk_finish env)

end walk

end arm64emu
