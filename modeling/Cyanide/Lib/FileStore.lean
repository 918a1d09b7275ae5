import Cyanide.Lib.PathTree
import Cyanide.Lib.Transition

/-!
# A store of files and directories

A `FileStore` is a tree whose entries are directories, files with a content, and special entries.  `apply` is what a
user expects of the operations of a file system, and `reply` what they answer; `Allowed` leaves out the calls on which
implementations differ: writing over a directory, removing a directory that is not empty, copying a tree onto one that
exists.  The root is a directory and so is the parent of every entry (`Proper`), and the allowed operations keep this
(`proper_apply`) and leave the paths of bounded length (`bounded_apply`).
-/

inductive StoreNode (κ : Type*) where
  | dir
  | file (content : κ)
  /-- A device and the like. -/
  | special
  deriving DecidableEq

abbrev FileStore (α κ : Type*) := PathTree α (StoreNode κ)

inductive StoreOp (α κ : Type*) where
  | read (p : List α)
  | write (p : List α) (content : κ)
  | makeDirs (p : List α)
  | remove (p : List α)
  | copy (p q : List α) (recursive : Bool)
  | move (p q : List α)
  /-- Another mode or owner. -/
  | mark (p : List α)
  | idle

inductive StoreReply (κ : Type*) where
  | content (content : κ)
  | done (ok : Bool)
  deriving DecidableEq

namespace FileStore

variable {α κ : Type*} {t : FileStore α κ} {p q : List α}

def isDir (t : FileStore α κ) (p : List α) : Bool :=
  match t p with
  | some .dir => true
  | _ => false

def isFile (t : FileStore α κ) (p : List α) : Bool :=
  match t p with
  | some (.file _) => true
  | _ => false

theorem isDir_iff : t.isDir p = true ↔ t p = some .dir := by
  unfold isDir
  split <;> simp_all

theorem isFile_iff : t.isFile p = true ↔ ∃ c, t p = some (.file c) := by
  unfold isFile
  split <;> simp_all

/-- An entry can be made at the path. -/
def hasParent (t : FileStore α κ) (p : List α) : Bool := !p.isEmpty && t.isDir p.dropLast

/-- A tree is copied into a directory under its own name. -/
def target (t : FileStore α κ) (p q : List α) : List α := if t.isDir q then q ++ p.getLast?.toList else q

@[simp] theorem hasParent_concat (p : List α) (a : α) : t.hasParent (p ++ [a]) = t.isDir p := by
  simp [hasParent]

/-- The entries without children. -/
def Childless (t : FileStore α κ) (p : List α) : Prop := ∀ a, t (p ++ [a]) = none

/-- The root is a directory, and every other entry is in one. -/
structure Proper (t : FileStore α κ) : Prop where
  root : t [] = some .dir
  parent : ∀ p a, t (p ++ [a]) ≠ none → t p = some .dir

theorem Proper.closed (h : Proper t) : t.Closed := by
  intro p a hx
  rw [h.parent p a hx]
  exact Option.some_ne_none _

theorem Proper.append (h : Proper t) {r : List α} (hx : t (p ++ r) ≠ none) (hr : r ≠ []) : t p = some .dir := by
  cases r with
  | nil => exact absurd rfl hr
  | cons a r => exact h.parent p a (h.closed.append (by rwa [List.append_assoc]))

/-- Nothing is below an entry that is no directory. -/
theorem Proper.below (h : Proper t) (hp : t p ≠ some .dir) {r : List α} (hr : r ≠ []) : t (p ++ r) = none := by
  by_contra hx
  exact hp (h.append hx hr)

theorem Childless.below (hp : t.Childless p) (h : Proper t) {r : List α} (hr : r ≠ []) : t (p ++ r) = none := by
  cases r with
  | nil => exact absurd rfl hr
  | cons a r =>
    by_contra hx
    exact h.closed.append (p := p ++ [a]) (by rwa [List.append_assoc]) (hp a)

theorem Proper.sub (h : Proper t) (p r : List α) (a : α) (hx : t.sub p (r ++ [a]) ≠ none) : t.sub p r = some .dir := by
  refine h.parent (p ++ r) a ?_
  rwa [List.append_assoc]

theorem leaf_parent (e : StoreNode κ) (r : List α) (a : α) (h : PathTree.leaf e (r ++ [a]) ≠ none) :
    PathTree.leaf e r = some .dir := by
  cases r <;> exact absurd rfl h

/-- No entry is deeper than `n`. -/
def Bounded (t : FileStore α κ) (n : Nat) : Prop := ∀ p, t p ≠ none → p.length ≤ n

theorem Bounded.mono {m n : Nat} (h : t.Bounded m) (hmn : m ≤ n) : t.Bounded n := fun p hp => (h p hp).trans hmn

theorem Bounded.sub {n : Nat} (h : t.Bounded n) (p : List α) : Bounded (t.sub p) n := by
  intro r hr
  have := h (p ++ r) hr
  rw [List.length_append] at this
  omega

theorem bounded_leaf (e : StoreNode κ) : Bounded (PathTree.leaf e : FileStore α κ) 0 := by
  intro p hp
  cases p with
  | nil => exact le_rfl
  | cons a p => exact absurd rfl hp

section

variable [DecidableEq α]

def makeDirs (t : FileStore α κ) (p : List α) : FileStore α κ := fun x => if x <+: p then some .dir else t x

def write (t : FileStore α κ) (p : List α) (content : κ) : FileStore α κ :=
  if t.hasParent p then t.graft p (.leaf (.file content)) else t

/-- The root is not removed. -/
def remove (t : FileStore α κ) (p : List α) : FileStore α κ := fun x => if p ≠ [] ∧ p <+: x then none else t x

/-- The tree at `p` is put at the target, with the directories above it that are missing. -/
def copy (t : FileStore α κ) (p q : List α) (recursive : Bool) : Bool × FileStore α κ :=
  let d := t.target p q
  match t p with
  | none => (false, t)
  | some (.file content) => (true, t.write d content)
  | some .special => (true, t)
  | some .dir => if !recursive || t.isFile d then (false, t) else (true, (t.makeDirs d).graft d (t.sub p))

/-- A copy after which the source is removed. -/
def move (t : FileStore α κ) (p q : List α) : Bool × FileStore α κ :=
  let (ok, t') := t.copy p q true
  (ok, if ok then t'.remove p else t')

def apply (t : FileStore α κ) : StoreOp α κ → FileStore α κ
  | .read _ | .mark _ | .idle => t
  | .write p content => t.write p content
  | .makeDirs p => t.makeDirs p
  | .remove p => t.remove p
  | .copy p q recursive => (t.copy p q recursive).2
  | .move p q => (t.move p q).2

def reply (t : FileStore α κ) : StoreOp α κ → StoreReply κ
  | .read p =>
    match t p with
    | some (.file content) => .content content
    | _ => .done false
  | .write p _ => .done (t.hasParent p)
  | .makeDirs _ | .idle => .done true
  | .remove p => .done (!p.isEmpty && (t p).isSome)
  | .copy p q recursive => .done (t.copy p q recursive).1
  | .move p q => .done (t.move p q).1
  | .mark p => .done (t p).isSome

/-- The copies of a file to a place that can hold one, and of a directory to an absent path that is not inside it. -/
def AllowedCopy (t : FileStore α κ) (p q : List α) (recursive : Bool) : Prop :=
  match t p with
  | none => True
  | some (.file _) => t.hasParent (t.target p q) = true ∧ t.isDir (t.target p q) = false
  | some .special => False
  | some .dir => recursive = false ∨ t.isFile (t.target p q) = true ∨
      (t (t.target p q) = none ∧ ¬p <+: t.target p q ∧ (∀ x, x <+: t.target p q → t x ≠ some .special) ∧
        ∀ r, t (p ++ r) ≠ some .special)

def Allowed (t : FileStore α κ) : StoreOp α κ → Prop
  | .read p => t.isFile p = true
  | .write p _ => p ≠ [] ∧ t.isDir p = false
  | .makeDirs p => ∀ x, x <+: p → t x ≠ some .special
  | .remove p => t.Childless p
  | .copy p q recursive => t.AllowedCopy p q recursive
  | .move p q => t.AllowedCopy p q true ∧ t.target p q ≠ p ∧ t.Childless p
  | .mark p => p ≠ [] ∧ t p ≠ some .special
  | .idle => True

/-! ### One path -/

theorem write_apply (h : Proper t) (hp : t.isDir p = false) (content : κ) (x : List α) :
    t.write p content x = if x = p ∧ t.hasParent p = true then some (.file content) else t x := by
  unfold write
  by_cases hpar : t.hasParent p = true
  · simp only [hpar, if_true, and_true]
    by_cases hle : p <+: x
    · obtain ⟨r, rfl⟩ := hle
      rw [PathTree.graft_append]
      cases r with
      | nil => simp [PathTree.leaf]
      | cons a r =>
        rw [PathTree.leaf, if_neg (by simp), h.below (by simp [← isDir_iff, hp]) (by simp)]
    · rw [PathTree.graft_of_not_le _ _ hle, if_neg]
      rintro rfl
      exact hle (List.prefix_refl _)
  · simp [hpar]

theorem remove_apply (h : Proper t) (hp : t.Childless p) (x : List α) :
    t.remove p x = if x = p ∧ p ≠ [] then none else t x := by
  unfold remove
  by_cases hle : p <+: x
  · obtain ⟨r, rfl⟩ := hle
    by_cases hr : r = []
    · simp [hr]
    · rw [hp.below h hr, ite_self, ite_self]
  · rw [if_neg fun hx => hle hx.2, if_neg]
    rintro ⟨rfl, -⟩
    exact hle (List.prefix_refl _)

theorem copy_none (hp : t p = none) (q : List α) (recursive : Bool) : t.copy p q recursive = (false, t) := by
  simp [copy, hp]

theorem copy_file {content : κ} (hp : t p = some (.file content)) (q : List α) (recursive : Bool) :
    t.copy p q recursive = (true, t.write (t.target p q) content) := by
  simp [copy, hp]

theorem copy_dir (hp : t p = some .dir) (q : List α) (recursive : Bool) : t.copy p q recursive =
    if !recursive || t.isFile (t.target p q) then (false, t)
    else (true, (t.makeDirs (t.target p q)).graft (t.target p q) (t.sub p)) := by
  simp [copy, hp]

/-- The root is not copied. -/
theorem ne_nil_of_copy (h : Proper t) (hG : t.AllowedCopy p q true) (hc : (t.copy p q true).1 = true) : p ≠ [] := by
  rintro rfl
  rw [copy_dir h.root] at hc
  simp only [AllowedCopy, h.root, Bool.true_eq_false, false_or] at hG
  rcases hG with hf | ⟨-, hpq, -⟩
  · simp [hf] at hc
  · exact hpq List.nil_prefix

/-- Nothing is copied into a source without children. -/
theorem childless_copy (h : Proper t) (hp : t.Childless p) (hG : t.AllowedCopy p q true) :
    Childless (t.copy p q true).2 p := by
  intro a
  unfold AllowedCopy at hG
  cases hnode : t p with
  | none =>
    rw [copy_none hnode]
    exact hp a
  | some node =>
    simp only [hnode] at hG
    cases node with
    | special => exact absurd hG id
    | file content =>
      rw [copy_file hnode]
      refine (write_apply h hG.2 content (p ++ [a])).trans ?_
      split
      · rename_i heq
        rw [← heq.1, hasParent_concat, isDir_iff, hnode] at hG
        cases hG.1
      · exact hp a
    | dir =>
      rw [copy_dir hnode]
      split
      · exact hp a
      · rename_i hno
        simp only [Bool.not_true, Bool.false_or] at hno
        obtain ⟨habs, hpq, -⟩ := (hG.resolve_left (by simp)).resolve_left hno
        have hnot : ¬t.target p q <+: p ++ [a] := by
          intro hle
          rcases List.prefix_concat_iff.1 hle with heq | ⟨r, hr⟩
          · exact hpq (heq ▸ List.prefix_append p [a])
          · -- the target is absent, and nothing is below it
            exact h.closed.append (p := t.target p q) (r := r) (by rw [hr, hnode]; simp) habs
        show PathTree.graft (t.makeDirs (t.target p q)) (t.target p q) (t.sub p) (p ++ [a]) = none
        rw [PathTree.graft_of_not_le _ _ hnot, makeDirs,
          if_neg fun hle => hpq ((List.prefix_append p [a]).trans hle), hp a]

/-! ### The operations keep a store proper -/

theorem Proper.makeDirs (h : Proper t) (p : List α) : Proper (t.makeDirs p) where
  root := if_pos List.nil_prefix
  parent x a hx := by
    unfold FileStore.makeDirs at hx ⊢
    by_cases hxp : x <+: p
    · exact if_pos hxp
    · rw [if_neg fun hle => hxp ((List.prefix_append x [a]).trans hle)] at hx
      rw [if_neg hxp]
      exact h.parent x a hx

/-- A tree whose entries other than the root are in directories, put into a directory. -/
theorem Proper.graft (h : Proper t) {u : FileStore α κ} (hp : p ≠ []) (hpar : u [] ≠ none → t p.dropLast = some .dir)
    (hu : ∀ r a, u (r ++ [a]) ≠ none → u r = some .dir) : Proper (t.graft p u) where
  root := by
    rw [PathTree.graft_of_not_le]
    · exact h.root
    · simpa using hp
  parent x a hx := by
    by_cases hle : p <+: x
    · obtain ⟨r, rfl⟩ := hle
      rw [List.append_assoc, PathTree.graft_append] at hx
      rw [PathTree.graft_append]
      exact hu r a hx
    · rw [PathTree.graft_of_not_le _ _ hle]
      by_cases hle' : p <+: x ++ [a]
      · -- the new entry itself
        have heq : p = x ++ [a] := (List.prefix_concat_iff.1 hle').resolve_right hle
        subst heq
        have happ := t.graft_append (x ++ [a]) u []
        rw [List.append_nil] at happ
        rw [happ] at hx
        simpa using hpar hx
      · rw [PathTree.graft_of_not_le _ _ hle'] at hx
        exact h.parent x a hx

theorem Proper.write (h : Proper t) (p : List α) (content : κ) : Proper (t.write p content) := by
  unfold FileStore.write
  split
  · rename_i hpar
    rw [hasParent, Bool.and_eq_true, isDir_iff] at hpar
    refine h.graft ?_ (fun _ => hpar.2) (leaf_parent _)
    rintro rfl
    simp at hpar
  · exact h

theorem Proper.remove (h : Proper t) (p : List α) : Proper (t.remove p) where
  root := by
    rw [FileStore.remove, if_neg, h.root]
    rintro ⟨hne, hle⟩
    exact hne (List.prefix_nil.1 hle)
  parent x a hx := by
    unfold FileStore.remove at hx ⊢
    by_cases hle : p ≠ [] ∧ p <+: x ++ [a]
    · exact absurd (if_pos hle) hx
    · rw [if_neg hle] at hx
      rw [if_neg fun hx' => hle ⟨hx'.1, hx'.2.trans (List.prefix_append x [a])⟩]
      exact h.parent x a hx

theorem Proper.copy (h : Proper t) {recursive : Bool} (hG : t.AllowedCopy p q recursive) :
    Proper (t.copy p q recursive).2 := by
  unfold FileStore.copy
  unfold AllowedCopy at hG
  dsimp only
  cases hp : t p with
  | none => exact h
  | some node =>
    cases node with
    | file content => exact h.write _ content
    | special => exact h
    | dir =>
      simp only [hp] at hG
      by_cases hno : (!recursive || t.isFile (t.target p q)) = true
      · simp only [hno, if_true]
        exact h
      · simp only [hno]
        simp only [Bool.or_eq_true, Bool.not_eq_true', not_or] at hno
        obtain ⟨habs, hpq, -, -⟩ := (hG.resolve_left hno.1).resolve_left hno.2
        have hd : t.target p q ≠ [] := by
          intro hd
          rw [hd, h.root] at habs
          cases habs
        exact (h.makeDirs _).graft hd (fun _ => if_pos (List.dropLast_prefix _)) (h.sub p)

theorem proper_apply (h : Proper t) {o : StoreOp α κ} (hG : t.Allowed o) : Proper (t.apply o) := by
  cases o with
  | read p => exact h
  | write p content => exact h.write p content
  | makeDirs p => exact h.makeDirs p
  | remove p => exact h.remove p
  | copy p q recursive => exact h.copy hG
  | move p q =>
    have hcopy : Proper (t.copy p q true).2 := h.copy hG.1
    show Proper (t.move p q).2
    unfold move
    dsimp only
    split
    · exact hcopy.remove p
    · exact hcopy
  | mark p => exact h
  | idle => exact h

/-! ### The operations keep a store bounded -/

theorem Bounded.graft {m n : Nat} {u : FileStore α κ} (h : t.Bounded n) (hu : u.Bounded m) (p : List α) :
    Bounded (t.graft p u) (n + p.length + m) := by
  intro x hx
  by_cases hle : p <+: x
  · obtain ⟨r, rfl⟩ := hle
    rw [PathTree.graft_append] at hx
    have := hu r hx
    rw [List.length_append]
    omega
  · rw [PathTree.graft_of_not_le _ _ hle] at hx
    have := h x hx
    omega

theorem Bounded.makeDirs {n : Nat} (h : t.Bounded n) (p : List α) : Bounded (t.makeDirs p) (n + p.length) := by
  intro x hx
  unfold FileStore.makeDirs at hx
  split at hx
  · rename_i hle
    have := hle.length_le
    omega
  · have := h x hx
    omega

theorem Bounded.write {n : Nat} (h : t.Bounded n) (p : List α) (content : κ) :
    ∃ m, Bounded (t.write p content) m := by
  unfold FileStore.write
  split
  · exact ⟨_, h.graft (bounded_leaf _) p⟩
  · exact ⟨n, h⟩

theorem Bounded.remove {n : Nat} (h : t.Bounded n) (p : List α) : Bounded (t.remove p) n := by
  intro x hx
  unfold FileStore.remove at hx
  split at hx
  · exact absurd rfl hx
  · exact h x hx

theorem Bounded.copy {n : Nat} (h : t.Bounded n) (p q : List α) (recursive : Bool) :
    ∃ m, Bounded (t.copy p q recursive).2 m := by
  unfold FileStore.copy
  dsimp only
  cases t p with
  | none => exact ⟨n, h⟩
  | some node =>
    cases node with
    | file content => exact h.write _ content
    | special => exact ⟨n, h⟩
    | dir =>
      dsimp only
      split
      · exact ⟨n, h⟩
      · exact ⟨_, (h.makeDirs _).graft (h.sub p) _⟩

theorem bounded_apply (h : ∃ n, t.Bounded n) (o : StoreOp α κ) : ∃ n, Bounded (t.apply o) n := by
  obtain ⟨n, h⟩ := h
  cases o with
  | read p => exact ⟨n, h⟩
  | write p content => exact h.write p content
  | makeDirs p => exact ⟨_, h.makeDirs p⟩
  | remove p => exact ⟨n, h.remove p⟩
  | copy p q recursive => exact h.copy p q recursive
  | move p q =>
    obtain ⟨m, hm⟩ := h.copy p q true
    show ∃ n, Bounded (t.move p q).2 n
    unfold move
    dsimp only
    split
    · exact ⟨m, hm.remove p⟩
    · exact ⟨m, hm⟩
  | mark p => exact ⟨n, h⟩
  | idle => exact ⟨n, h⟩

/-- In a run of allowed operations one bound fits every store. -/
theorem exists_bounded_run (hproper : Proper t) (h : ∃ n, t.Bounded n) {ops : List (StoreOp α κ)}
    (hG : Transition.Meets apply Allowed t ops) :
    ∃ n, Transition.Meets apply (fun t o => (t.Bounded n ∧ Proper t) ∧ t.Allowed o) t ops := by
  refine Transition.exists_bound (I := fun t => Proper t ∧ ∃ n, Bounded t n) (H := Allowed) (G := fun n t o =>
    (t.Bounded n ∧ Proper t) ∧ t.Allowed o) ?_ ?_ ?_ ⟨hproper, h⟩ hG
  · rintro m n t o hmn ⟨⟨hb, hp⟩, ho⟩
    exact ⟨⟨hb.mono hmn, hp⟩, ho⟩
  · rintro t o ⟨hp, hb⟩ ho
    exact ⟨proper_apply hp ho, bounded_apply hb o⟩
  · rintro t o ⟨hp, n, hn⟩ ho
    exact ⟨n, ⟨hn, hp⟩, ho⟩

end

end FileStore
