import Cyanide.Lib.OrderedDict
import Cyanide.Lib.PosixPath
import Cyanide.Lib.PyText

/-!
# Nested nodes of a profile

`_flatten_nodes` makes the manifest entries of the nested `nodes` of a profile: text leaves, lists of names, file
descriptions and directories, of any depth.  The entry of a node is at the path of the names that lead to it, and a
dictionary keeps one entry for a path; so that no node is lost the names in a directory have to be different
(`flattenNodes_entries`).  The entries come in the order of the tree.
-/

namespace Cyanide

open PosixPath PyText OrderedDict

/-- What `yaml.safe_load` makes of a node; `other` is any value that is no text, list of texts or dictionary. -/
inductive YamlNode where
  | text (s : Str)
  | list (items : List Str)
  | dict (entries : List (Str × YamlNode))
  | other (kind : Str)

namespace YamlNode

/-- `{"content": text, "type": "file"}`. -/
def fileEntry (text : Str) : YamlNode :=
  .dict [("content".toList, .text text), ("type".toList, .text "file".toList)]

/-- `{"type": "dir", "content": ""}`. -/
def dirEntry : YamlNode := .dict [("type".toList, .text "dir".toList), ("content".toList, .text [])]

end YamlNode

open YamlNode

/-- A dictionary with one of the keys `content` and `provider` describes a file. -/
def isDescription (entries : List (Str × YamlNode)) : Bool :=
  (entries.map Prod.fst).contains "content".toList || (entries.map Prod.fst).contains "provider".toList

/-- A description is a file if it does not say otherwise. -/
def withType (entries : List (Str × YamlNode)) : List (Str × YamlNode) :=
  if (entries.map Prod.fst).contains "type".toList then entries
  else entries ++ [("type".toList, .text "file".toList)]

/-- `name.lstrip('/')`. -/
def lstripSlash (name : Str) : Str := name.dropWhile (· = '/')

/-- `_handle_list_node`. -/
def handleListNode (flatMap : OrderedDict Str YamlNode) (path : Str) (items : List Str) : OrderedDict Str YamlNode :=
  items.foldl (fun flatMap item => flatMap.insert (replace "//".toList ['/'] (path ++ '/' :: item)) (fileEntry []))
    (flatMap.insert path dirEntry)

mutual

/-- What the loop of `_flatten_nodes` does with the value of a node; a dictionary goes to `_handle_dict_node`. -/
def handleNode (flatMap : OrderedDict Str YamlNode) (path : Str) : YamlNode → OrderedDict Str YamlNode
  | .text s => flatMap.insert path (fileEntry s)
  | .list items => handleListNode flatMap path items
  | .dict entries =>
    if isDescription entries then flatMap.insert path (.dict (withType entries))
    else (flatMap.insert path dirEntry).update (flattenLoop empty path entries)
  | .other _ => flatMap

/-- The loop of `_flatten_nodes`. -/
def flattenLoop (flatMap : OrderedDict Str YamlNode) (currentPath : Str) :
    List (Str × YamlNode) → OrderedDict Str YamlNode
  | [] => flatMap
  | (name, value) :: nodes =>
    flattenLoop (handleNode flatMap (replace "//".toList ['/'] (currentPath ++ '/' :: lstripSlash name)) value)
      currentPath nodes

end

/-- `_flatten_nodes`. -/
def flattenNodes (nodes : List (Str × YamlNode)) (currentPath : Str) : OrderedDict Str YamlNode :=
  flattenLoop empty currentPath nodes

/-! ### The nodes of a tree -/

/-- A name of a file, `.` and `..` included. -/
def IsComponent (c : Str) : Prop := c ≠ [] ∧ '/' ∉ c

instance (c : Str) : Decidable (IsComponent c) := inferInstanceAs (Decidable (_ ∧ _))

/-- A name without the slash that it may begin with. -/
def component (name : Str) : Str := if name.head? = some '/' then name.tail else name

/-- Names of a directory: proper components, each one once. -/
def Proper (names : List Str) : Prop := (∀ name ∈ names, IsComponent (component name)) ∧ (names.map component).Nodup

instance (names : List Str) : Decidable (Proper names) := inferInstanceAs (Decidable (_ ∧ _))

/-- The path of the components `p`, from the root. -/
def pathOf (p : List Str) : Str := p.flatMap fun c => '/' :: c

mutual

/-- The node at the components `p` and the nodes and listed names below it, with the entries they ought to have. -/
def nodesAt (p : List Str) : YamlNode → List (List Str × YamlNode)
  | .text s => [(p, fileEntry s)]
  | .list items => (p, dirEntry) :: items.map fun item => (p ++ [component item], fileEntry [])
  | .dict entries => if isDescription entries then [(p, .dict (withType entries))] else (p, dirEntry) :: nodesBelow p entries
  | .other _ => []

def nodesBelow (p : List Str) : List (Str × YamlNode) → List (List Str × YamlNode)
  | [] => []
  | (name, value) :: nodes => nodesAt (p ++ [component name]) value ++ nodesBelow p nodes

end

/-- A tree of text leaves, lists of names, descriptions and directories. -/
inductive IsTree : YamlNode → Prop
  | text (s : Str) : IsTree (.text s)
  | list (items : List Str) : Proper items → IsTree (.list items)
  | description (entries : List (Str × YamlNode)) : isDescription entries = true → IsTree (.dict entries)
  | dir (entries : List (Str × YamlNode)) : isDescription entries = false → Proper (entries.map Prod.fst) →
      (∀ e ∈ entries, IsTree e.2) → IsTree (.dict entries)

/-- The trees of the names in a directory. -/
def IsForest (nodes : List (Str × YamlNode)) : Prop := Proper (nodes.map Prod.fst) ∧ ∀ e ∈ nodes, IsTree e.2

/-- Entries at the paths of their nodes. -/
def placed (nodes : List (List Str × YamlNode)) : List (Str × YamlNode) := nodes.map fun e => (pathOf e.1, e.2)

/-! ### Paths -/

variable {p q : List Str} {c name path : Str} {flatMap : OrderedDict Str YamlNode} {v : YamlNode}
  {nodes : List (Str × YamlNode)}

@[simp] theorem pathOf_append (p q : List Str) : pathOf (p ++ q) = pathOf p ++ pathOf q := List.flatMap_append

@[simp] theorem pathOf_singleton (c : Str) : pathOf [c] = '/' :: c := by simp [pathOf]

/-- Paths lead to different nodes. -/
theorem pathOf_inj (hp : ∀ c ∈ p, IsComponent c) (hq : ∀ c ∈ q, IsComponent c) (h : pathOf p = pathOf q) : p = q := by
  have hsplit : ∀ {p : List Str}, (∀ c ∈ p, IsComponent c) → (pathOf p).splitOn '/' = [] :: p := by
    intro p hp
    induction p with
    | nil => rfl
    | cons c p ih =>
      have hshape : pathOf (c :: p) = List.intercalate ['/'] ([] :: c :: p) := by
        clear ih hp
        induction p generalizing c with
        | nil => simp [pathOf, List.intercalate]
        | cons d p ih =>
          have hd := ih (c := d)
          rw [List.intercalate_cons_cons, List.nil_append] at hd ⊢
          rw [List.intercalate_cons_cons, pathOf, List.flatMap_cons]
          rw [pathOf] at hd
          rw [hd]
          simp
      rw [hshape, List.splitOn_intercalate _ (fun d hd => ?_) (by simp)]
      rcases List.mem_cons.1 hd with rfl | hd
      · simp
      · exact (hp d hd).2
  have hcons := (hsplit hp).symm.trans ((congrArg (·.splitOn '/') h).trans (hsplit hq))
  exact (List.cons.inj hcons).2

/-- A doubled slash behind a path is the only one that `replace` finds. -/
theorem replace_pathOf (hp : ∀ c ∈ p, IsComponent c) (rest : Str) :
    replace "//".toList ['/'] (pathOf p ++ rest) = pathOf p ++ replace "//".toList ['/'] rest := by
  induction p with
  | nil => rfl
  | cons c p ih =>
    obtain ⟨hne, hslash⟩ := hp c (by simp)
    have hrest := ih fun d hd => hp d (by simp [hd])
    obtain ⟨a, c, rfl⟩ := List.exists_cons_of_ne_nil hne
    have ha : a ≠ '/' := fun h => hslash (by simp [h])
    have hfirst : ¬"//".toList.isPrefixOf ('/' :: (a :: c ++ (pathOf p ++ rest))) = true := by simp [Ne.symm ha]
    have hshape : pathOf ((a :: c) :: p) ++ rest = '/' :: (a :: c ++ (pathOf p ++ rest)) := by simp [pathOf]
    rw [hshape, replace, replaceFrom, if_neg hfirst, replaceFrom_append_of_notMem rfl hslash]
    unfold replace at hrest ⊢
    rw [hrest]
    simp only [pathOf, List.flatMap_cons, List.cons_append, List.append_assoc]

/-- The path of a name in a directory, whether the name begins with a slash or not. -/
theorem replace_component (hp : ∀ c ∈ p, IsComponent c) (hname : IsComponent (component name)) :
    replace "//".toList ['/'] (pathOf p ++ '/' :: name) = pathOf (p ++ [component name]) := by
  have hplain : ∀ {c : Str}, IsComponent c → replaceFrom "//".toList ['/'] 0 c = c := by
    intro c hc
    have hnone := replaceFrom_append_of_notMem (show "//".toList.head? = some '/' from rfl) hc.2 ['/'] []
    rwa [List.append_nil, replaceFrom, List.append_nil] at hnone
  rw [replace_pathOf hp, pathOf_append, pathOf_singleton]
  congr 1
  unfold component at hname ⊢
  split_ifs at hname ⊢ with hhead
  · cases name with
    | nil => cases hhead
    | cons a name =>
      obtain rfl := Option.some.inj hhead
      exact congrArg ('/' :: ·) (hplain hname)
  · cases name with
    | nil => exact absurd rfl hname.1
    | cons a name =>
      have ha : a ≠ '/' := fun h => hhead (by rw [h]; rfl)
      have hfirst : ¬"//".toList.isPrefixOf ('/' :: a :: name) = true := by simp [Ne.symm ha]
      rw [replace, replaceFrom, if_neg hfirst, hplain hname]

theorem lstripSlash_of_isComponent (hname : IsComponent (component name)) : lstripSlash name = component name := by
  have hstart : ∀ {c : Str}, IsComponent c → c.dropWhile (· = '/') = c := by
    rintro (_ | ⟨a, c⟩) hc
    · rfl
    · have ha : a ≠ '/' := fun h => hc.2 (by simp [h])
      exact List.dropWhile_cons_of_neg (by simpa using ha)
  unfold component at hname ⊢
  split_ifs at hname ⊢ with hhead
  · cases name with
    | nil => cases hhead
    | cons a name =>
      obtain rfl := Option.some.inj hhead
      rw [lstripSlash, List.dropWhile_cons_of_pos (by simp)]
      exact hstart hname
  · exact hstart hname

theorem component_component (hname : IsComponent (component name)) : component (component name) = component name := by
  have hhead : (component name).head? ≠ some '/' := fun h => hname.2 (List.mem_of_mem_head? h)
  exact if_neg hhead

private theorem isComponent_concat (hp : ∀ c ∈ p, IsComponent c) (hc : IsComponent c) :
    ∀ d ∈ p ++ [c], IsComponent d := by
  intro d hd
  rcases List.mem_append.1 hd with hd | hd
  · exact hp d hd
  · exact List.mem_singleton.1 hd ▸ hc

/-! ### Entries -/

/-- Nothing in the map is at or below a path. -/
def Free (flatMap : OrderedDict Str YamlNode) (p : List Str) : Prop :=
  ∀ q, (∀ c ∈ q, IsComponent c) → pathOf (p ++ q) ∉ flatMap.keys

theorem free_empty (p : List Str) : Free empty p := fun _ _ => List.not_mem_nil

theorem Free.below (h : Free flatMap p) (hc : IsComponent c) : Free flatMap (p ++ [c]) := by
  intro q hq
  rw [List.append_assoc]
  exact h (c :: q) (List.forall_mem_cons.2 ⟨hc, hq⟩)

/-- The directory itself leaves its names free. -/
theorem Free.insert (h : Free flatMap p) (hp : ∀ c ∈ p, IsComponent c) (hc : IsComponent c) (v : YamlNode) :
    Free (flatMap.insert (pathOf p) v) (p ++ [c]) := by
  have hroot : pathOf p ∉ flatMap.keys := by
    have hroot := h [] (by simp)
    rwa [List.append_nil] at hroot
  intro q hq hmem
  rw [keys, entries_insert_of_notMem _ hroot, List.map_append, List.mem_append] at hmem
  rcases hmem with hmem | hmem
  · exact h.below hc q hq hmem
  · rw [List.map_singleton, List.mem_singleton] at hmem
    have hpath : p ++ [c] ++ q = p := by
      refine pathOf_inj (fun d hd => ?_) hp hmem
      rcases List.mem_append.1 hd with hd | hd
      · exact isComponent_concat hp hc d hd
      · exact hq d hd
    simp at hpath

/-- Nodes below one name of a directory leave the other names free. -/
theorem Free.of_entries {flatMap' : OrderedDict Str YamlNode} {l : List (List Str × YamlNode)} {d : Str}
    (h : Free flatMap (p ++ [d])) (hentries : flatMap'.entries = flatMap.entries ++ placed l)
    (hp : ∀ c ∈ p, IsComponent c) (hd : IsComponent d) (hc : c ≠ d)
    (hl : ∀ e ∈ l, (∀ c ∈ e.1, IsComponent c) ∧ p ++ [c] <+: e.1) : Free flatMap' (p ++ [d]) := by
  intro q hq hmem
  rw [keys, hentries, List.map_append, List.mem_append] at hmem
  rcases hmem with hmem | hmem
  · exact h q hq hmem
  · rw [placed, List.map_map] at hmem
    obtain ⟨e, he, hpath⟩ := List.mem_map.1 hmem
    obtain ⟨hproper, r, hr⟩ := hl e he
    have hpath' : e.1 = p ++ [d] ++ q := by
      refine pathOf_inj hproper (fun x hx => ?_) hpath
      rcases List.mem_append.1 hx with hx | hx
      · exact isComponent_concat hp hd x hx
      · exact hq x hx
    rw [← hr, List.append_assoc, List.append_assoc] at hpath'
    exact hc (List.cons.inj (List.append_cancel_left hpath')).1

theorem nodesBelow_eq_flatMap (p : List Str) (nodes : List (Str × YamlNode)) :
    nodesBelow p nodes = nodes.flatMap fun e => nodesAt (p ++ [component e.1]) e.2 := by
  induction nodes with
  | nil => rfl
  | cons e nodes ih => rw [nodesBelow, List.flatMap_cons, ih]

/-- The nodes of a tree are at or below its path. -/
theorem nodesAt_below (h : IsTree v) (hp : ∀ c ∈ p, IsComponent c) :
    ∀ e ∈ nodesAt p v, (∀ c ∈ e.1, IsComponent c) ∧ p <+: e.1 := by
  induction h generalizing p with
  | text s => simpa [nodesAt] using hp
  | list items hitems =>
    intro e he
    rw [nodesAt, List.mem_cons] at he
    rcases he with rfl | he
    · exact ⟨hp, List.prefix_rfl⟩
    · obtain ⟨item, hitem, rfl⟩ := List.mem_map.1 he
      exact ⟨isComponent_concat hp (hitems.1 item hitem), List.prefix_append _ _⟩
  | description entries hdesc =>
    rw [nodesAt, if_pos hdesc]
    simpa using hp
  | dir entries hdesc hproper _ ih =>
    intro e he
    rw [nodesAt, hdesc, if_neg Bool.false_ne_true, List.mem_cons] at he
    rcases he with rfl | he
    · exact ⟨hp, List.prefix_rfl⟩
    · rw [nodesBelow_eq_flatMap] at he
      obtain ⟨entry, hentry, he⟩ := List.mem_flatMap.1 he
      have hname : IsComponent (component entry.1) := hproper.1 _ (List.mem_map_of_mem hentry)
      have hbelow := ih entry hentry (isComponent_concat hp hname) e he
      exact ⟨hbelow.1, (List.prefix_append _ _).trans hbelow.2⟩

/-- What `handleNode` does with a tree at a free path. -/
def Places (v : YamlNode) : Prop :=
  ∀ (flatMap : OrderedDict Str YamlNode) (p : List Str), (∀ c ∈ p, IsComponent c) → Free flatMap p →
    (handleNode flatMap (pathOf p) v).entries = flatMap.entries ++ placed (nodesAt p v)

/-- The names of a list, one after the other. -/
theorem entries_items (hp : ∀ c ∈ p, IsComponent c) {items : List Str} (hitems : Proper items)
    (hfree : ∀ item ∈ items, Free flatMap (p ++ [component item])) :
    (items.foldl (fun flatMap item => flatMap.insert (replace "//".toList ['/'] (pathOf p ++ '/' :: item))
      (fileEntry [])) flatMap).entries =
      flatMap.entries ++ placed (items.map fun item => (p ++ [component item], fileEntry [])) := by
  obtain ⟨hnames, hnodup⟩ := hitems
  induction items generalizing flatMap with
  | nil => exact (List.append_nil _).symm
  | cons item items ih =>
    rw [List.forall_mem_cons] at hnames hfree
    obtain ⟨hitem, hnodup⟩ := List.nodup_cons.1 hnodup
    have hnew : pathOf (p ++ [component item]) ∉ flatMap.keys := by
      have hroot := hfree.1 [] (by simp)
      rwa [List.append_nil] at hroot
    have hentries := entries_insert_of_notMem flatMap (v := fileEntry []) hnew
    rw [List.foldl_cons, replace_component hp hnames.1, ih (fun other hother => ?_) hnames.2 hnodup, hentries,
      List.append_assoc]
    · rfl
    · refine (hfree.2 other hother).of_entries (l := [(p ++ [component item], fileEntry [])]) hentries hp
        (hnames.2 other hother) (fun heq => hitem (heq.symm ▸ List.mem_map_of_mem hother)) (c := component item)
        fun e he => ?_
      rw [List.mem_singleton.1 he]
      exact ⟨isComponent_concat hp hnames.1, List.prefix_rfl⟩

/-- The names of a directory, one after the other. -/
theorem entries_flattenLoop (hp : ∀ c ∈ p, IsComponent c) (hforest : IsForest nodes) (hplaces : ∀ e ∈ nodes, Places e.2)
    (hfree : ∀ e ∈ nodes, Free flatMap (p ++ [component e.1])) :
    (flattenLoop flatMap (pathOf p) nodes).entries = flatMap.entries ++ placed (nodesBelow p nodes) := by
  obtain ⟨⟨hnames, hnodup⟩, htrees⟩ := hforest
  induction nodes generalizing flatMap with
  | nil => rw [flattenLoop, nodesBelow, placed, List.map_nil, List.append_nil]
  | cons entry nodes ih =>
    rw [List.map_cons, List.forall_mem_cons] at hnames
    rw [List.map_cons, List.map_cons] at hnodup
    rw [List.forall_mem_cons] at hplaces hfree htrees
    obtain ⟨hname, hnodup⟩ := List.nodup_cons.1 hnodup
    have hpath := isComponent_concat hp hnames.1
    have hentries := hplaces.1 flatMap _ hpath hfree.1
    have hslash : IsComponent (component (component entry.1)) := (component_component hnames.1).symm ▸ hnames.1
    rw [flattenLoop, lstripSlash_of_isComponent hnames.1, replace_component hp hslash, component_component hnames.1,
      ih hplaces.2 (fun other hother => ?_) htrees.2 hnames.2 hnodup, hentries, List.append_assoc, nodesBelow]
    · simp [placed]
    · have hother' : component other.1 ∈ (nodes.map Prod.fst).map component :=
        List.mem_map_of_mem (List.mem_map_of_mem hother)
      exact (hfree.2 other hother).of_entries hentries hp (hnames.2 _ (List.mem_map_of_mem hother))
        (c := component entry.1) (fun heq => hname (heq.symm ▸ hother')) (nodesAt_below htrees.1 hpath)

/-- Every tree adds the entries of its nodes, in their order. -/
theorem places_of_isTree (h : IsTree v) : Places v := by
  have hroot : ∀ {flatMap : OrderedDict Str YamlNode} {p : List Str}, Free flatMap p → pathOf p ∉ flatMap.keys := by
    intro flatMap p hfree
    have hroot := hfree [] (by simp)
    rwa [List.append_nil] at hroot
  induction h with
  | text s =>
    intro flatMap p hp hfree
    rw [handleNode, entries_insert_of_notMem _ (hroot hfree)]
    rfl
  | list items hitems =>
    intro flatMap p hp hfree
    have hentries := entries_insert_of_notMem flatMap (v := dirEntry) (hroot hfree)
    rw [handleNode, handleListNode, entries_items hp hitems fun item hitem => ?_, hentries, nodesAt, List.append_assoc]
    · rfl
    · exact hfree.insert hp (hitems.1 item hitem) dirEntry
  | description entries hdesc =>
    intro flatMap p hp hfree
    rw [handleNode, if_pos hdesc, nodesAt, if_pos hdesc, entries_insert_of_notMem _ (hroot hfree)]
    rfl
  | dir entries hdesc hproper htrees ih =>
    intro flatMap p hp hfree
    have hentries := entries_insert_of_notMem flatMap (v := dirEntry) (hroot hfree)
    have hsub : (flattenLoop empty (pathOf p) entries).entries = _ :=
      entries_flattenLoop hp ⟨hproper, htrees⟩ ih fun _ _ => free_empty _
    rw [handleNode, hdesc, if_neg Bool.false_ne_true, nodesAt, hdesc, if_neg Bool.false_ne_true,
      entries_update_of_disjoint, hentries, hsub, List.append_assoc]
    · rfl
    · intro k hk
      rw [keys, hsub, show (empty : OrderedDict Str YamlNode).entries = [] from rfl, List.nil_append, placed,
        List.map_map] at hk
      obtain ⟨e, he, rfl⟩ := List.mem_map.1 hk
      rw [nodesBelow_eq_flatMap] at he
      obtain ⟨entry, hentry, he⟩ := List.mem_flatMap.1 he
      have hname := hproper.1 _ (List.mem_map_of_mem hentry)
      obtain ⟨hcomponents, r, hr⟩ := nodesAt_below (htrees entry hentry) (isComponent_concat hp hname) e he
      rw [← hr] at hcomponents
      show pathOf e.1 ∉ _
      rw [← hr]
      exact hfree.insert hp hname dirEntry r fun c hc => hcomponents c (List.mem_append_right _ hc)

/-- The manifest entries of a tree are those of its nodes and listed names, in order, each at its path from the root,
and no two share a path. -/
theorem flattenNodes_entries (h : IsForest nodes) :
    (flattenNodes nodes []).entries = placed (nodesBelow [] nodes) ∧
      ((nodesBelow [] nodes).map fun e => pathOf e.1).Nodup ∧
      ∀ e ∈ nodesBelow [] nodes, e.1 ≠ [] ∧ ∀ c ∈ e.1, IsComponent c := by
  have hentries : (flattenNodes nodes []).entries = placed (nodesBelow [] nodes) :=
    entries_flattenLoop (p := []) (by simp) h (fun e he => places_of_isTree (h.2 e he)) fun _ _ => free_empty _
  refine ⟨hentries, ?_, fun e he => ?_⟩
  · have hnodup := (flattenNodes nodes []).nodup
    rw [hentries, placed, List.map_map] at hnodup
    exact hnodup
  · rw [nodesBelow_eq_flatMap] at he
    obtain ⟨entry, hentry, he⟩ := List.mem_flatMap.1 he
    have hname := h.1.1 _ (List.mem_map_of_mem hentry)
    obtain ⟨hcomponents, r, hr⟩ := nodesAt_below (h.2 entry hentry) (isComponent_concat (by simp) hname) e he
    exact ⟨by simp [← hr], hcomponents⟩

/-- A directory with a file, a list of names and a directory with a described file. -/
def etcNodes : List (Str × YamlNode) :=
  [("/etc".toList, .dict [("passwd".toList, .text "root".toList),
    ("network".toList, .list ["interfaces".toList, "/hosts".toList]),
    ("ssh".toList, .dict [("sshd_config".toList, .dict [("content".toList, .text "Port 22".toList)])])])]

theorem flattenNodes_entries_etc :
    (flattenNodes etcNodes []).keys = ["/etc".toList, "/etc/passwd".toList, "/etc/network".toList,
      "/etc/network/interfaces".toList, "/etc/network/hosts".toList, "/etc/ssh".toList,
      "/etc/ssh/sshd_config".toList] := by
  have hforest : IsForest etcNodes := by
    refine ⟨by decide, List.forall_mem_singleton.2 (.dir _ (by decide) (by decide) ?_)⟩
    refine List.forall_mem_cons.2 ⟨.text _, List.forall_mem_cons.2 ⟨.list _ (by decide), ?_⟩⟩
    refine List.forall_mem_singleton.2 (.dir _ (by decide) (by decide) ?_)
    exact List.forall_mem_singleton.2 (.description _ (by decide))
  rw [keys, (flattenNodes_entries hforest).1]
  decide

end Cyanide
