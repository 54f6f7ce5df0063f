import Mathlib

namespace linux

/-- The four ids of one kind. -/
structure Ids (ι : Type) where
  real : ι
  eff : ι
  saved : ι
  fs : ι
  deriving DecidableEq

inductive Refusal where
  | perm
  | inval
  deriving DecidableEq

variable {ι : Type} [DecidableEq ι]

/-- A process without privilege may take up an id it has as real, effective or saved. -/
def Ids.has (c : Ids ι) (u : ι) : Prop := u = c.real ∨ u = c.eff ∨ u = c.saved

instance (c : Ids ι) (u : ι) : Decidable (c.has u) := inferInstanceAs (Decidable (_ ∨ _ ∨ _))

/-- `setuid` and `setgid`. As in all of these, `none` is the id -1, which names nobody. -/
def Ids.set (priv : Bool) (c : Ids ι) : Option ι → Except Refusal (Ids ι)
  | none => .error .inval
  | some u =>
    if priv then .ok ⟨u, u, u, u⟩
    else if u = c.real ∨ u = c.saved then .ok { c with eff := u, fs := u }
    else .error .perm

/-- `setreuid` and `setregid`. The saved id follows the effective one when the real id
is set, or the effective one to something other than the real id. -/
def Ids.setre (priv : Bool) (c : Ids ι) (r e : Option ι) : Except Refusal (Ids ι) :=
  if (∀ u ∈ r, priv ∨ u = c.real ∨ u = c.eff) ∧ ∀ u ∈ e, priv ∨ c.has u then
    .ok {
      real := r.getD c.real
      eff := e.getD c.eff
      saved := if r.isSome ∨ ∃ u ∈ e, u ≠ c.real then e.getD c.eff else c.saved
      fs := e.getD c.eff }
  else .error .perm

def Ids.setres (priv : Bool) (c : Ids ι) (r e s : Option ι) : Except Refusal (Ids ι) :=
  if priv ∨ ((∀ u ∈ r, c.has u) ∧ (∀ u ∈ e, c.has u) ∧ ∀ u ∈ s, c.has u) then
    .ok ⟨r.getD c.real, e.getD c.eff, s.getD c.saved, e.getD c.eff⟩
  else .error .perm

def Ids.setfs (priv : Bool) (c : Ids ι) : Option ι → Ids ι
  | none => c
  | some u => if priv ∨ c.has u ∨ u = c.fs then { c with fs := u } else c

/-- What an exec does to the ids of a kind once the effective one is known. -/
def Ids.exec (c : Ids ι) (eff : ι) : Ids ι := ⟨c.real, eff, eff, eff⟩

/-- The ids of a process. -/
structure Creds (ι : Type) where
  uid : Ids ι
  gid : Ids ι
  deriving DecidableEq

/-- An image: its owner and group, and whether its mode gives either away. -/
structure Image (ι : Type) where
  owner : Option ι
  group : Option ι
  setuid : Bool
  setgid : Bool

/-- The effective id an image asks for, if it asks and the id names somebody. An image with
an owner or a group that names nobody asks for neither. -/
def Image.ask (img : Image ι) (nnp bit : Bool) (id : Option ι) : Option ι :=
  if !nnp && bit && img.owner.isSome && img.group.isSome then id else none

/-- `execve` of an image. Kernels differ in whether an exec under no_new_privs also takes
back effective ids that are not the real ones: `lowers`. -/
def Creds.exec (lowers nnp : Bool) (c : Creds ι) (img : Image ι) : Creds ι :=
  let euid := (img.ask nnp img.setuid img.owner).getD c.uid.eff
  let egid := (img.ask nnp img.setgid img.group).getD c.gid.eff
  if lowers && nnp && decide (euid ≠ c.uid.real ∨ egid ≠ c.gid.real) then
    ⟨c.uid.exec c.uid.real, c.gid.exec c.gid.real⟩
  else ⟨c.uid.exec euid, c.gid.exec egid⟩

end linux
