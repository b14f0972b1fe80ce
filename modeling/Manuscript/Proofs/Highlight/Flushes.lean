import Mathlib.Data.List.Induction
import Manuscript.Proofs.Highlight.Sharing

/-!
Stores that share one file.  They are opened, take results in and are flushed in any order, and the system may refuse
any call that a flush makes.

Main statement: no result that was flushed is lost (`keepsResults`).  What one flush can do is said once
(`attempt_cases`); what every step keeps (`Sound.step`) holds after any number of steps (`sound_run`).
-/

namespace Manuscript

namespace FileTree

variable {refused : Place → Option FileError} {tree : FileTree} {folder : Place} {names : List Text}

/-- Makes the folders on the way along the names of a path, unless the system refuses one; those that are made by then
stay. -/
def makeFolders (refused : Place → Option FileError) (tree : FileTree) (folder : Place) :
    List Text → Except FileError Unit × FileTree
  | [] => (.ok (), tree)
  | name :: rest =>
    if name = [] ∨ name = "." then makeFolders refused tree folder rest
    else if name = ".." then
      if folder.isEmpty then (.error .notFound, tree) else makeFolders refused tree folder.dropLast rest
    else
      let place := folder ++ [name]
      if (tree.file? place).isSome then
        (.error (if rest.isEmpty then .alreadyExists else .notAFolder), tree)
      else if tree.hasFolder place then makeFolders refused tree place rest
      else
        match refused place with
        | some e => (.error e, tree)
        | none => makeFolders refused (tree.setFolder place) place rest

theorem makeWay_eq : tree.makeWay folder names =
    (makeFolders (fun _ => none) tree folder names).1.map fun _ => (makeFolders (fun _ => none) tree folder names).2 := by
  induction names generalizing tree folder with
  | nil => rfl
  | cons name rest ih =>
      simp only [makeWay, makeFolders]
      split
      · exact ih
      · split
        · split
          · rfl
          · exact ih
        · split
          · rfl
          · split
            · exact ih
            · exact ih

/-- Whether or not it is refused one in the end, it makes folders and touches no file. -/
theorem within_makeFolders : tree.Within (makeFolders refused tree folder names).2 ∧
    (makeFolders refused tree folder names).2.files = tree.files := by
  induction names generalizing tree folder with
  | nil => exact ⟨.refl tree, rfl⟩
  | cons name rest ih =>
      rw [makeFolders]
      split
      · exact ih
      · split
        · split
          · exact ⟨.refl tree, rfl⟩
          · exact ih
        · dsimp only
          split
          · exact ⟨.refl tree, rfl⟩
          · split
            · exact ih
            · split
              · exact ⟨.refl tree, rfl⟩
              · have hrest := @ih (tree.setFolder (folder ++ [name])) (folder ++ [name])
                exact ⟨(within_setFolder tree _).trans hrest.1, hrest.2⟩

end FileTree

namespace Highlight.Store

/-- What the system refuses during a flush, if anything: to make a folder, to write the new content to a file of its
own, or to put that in the place of the old one. -/
structure Refusals where
  folder : Place → Option FileError
  content : Option FileError
  rename : Option FileError

/-- The system does all it is asked. -/
def Refusals.none : Refusals := ⟨fun _ => .none, .none, .none⟩

/-- A flush call by call: how it ends, and what the store and the files are then. -/
def attempt (s : Store) (tree : FileTree) (refused : Refusals) : Except FileError Unit × Store × FileTree :=
  match s.path with
  | .none => (.ok (), s, tree)
  | some path =>
    if !s.isDirty then (.ok (), s, tree)
    else
      let merged := (readEntries tree path).union s.entries
      match tree.makeFolders refused.folder (tree.start path) (FileTree.splitPath path).1 with
      | (.error e, way) => (.error e, s, way)
      | (.ok (), way) =>
        match refused.content.or refused.rename with
        | some e => (.error e, s, way)
        | .none =>
          match way.write path (Utf8.encode (writtenEntries merged)) with
          | .error e => (.error e, s, way)
          | .ok written => (.ok (), { s with entries := merged, isDirty := false }, written)

/-- Where nothing is refused, this is a flush. -/
theorem flush_eq_attempt (s : Store) (tree : FileTree) :
    s.flush tree = (s.attempt tree .none).1.map fun _ => (s.attempt tree .none).2 := by
  unfold flush attempt
  cases s.path with
  | none => rfl
  | some path =>
      cases s.isDirty with
      | false => rfl
      | true =>
          simp only [Bool.not_true, Bool.false_eq_true, if_false, FileTree.writeDeep, FileTree.makeWay_eq]
          rw [show Refusals.none.folder = fun _ => Option.none from rfl]
          rcases FileTree.makeFolders _ tree _ _ with ⟨_ | _, way⟩
          · rfl
          · cases hwrite : way.write path (Utf8.encode (writtenEntries ((readEntries tree path).union s.entries))) with
            | error e => simp [hwrite, bind, Except.bind, Except.map, Refusals.none]
            | ok written => simp [hwrite, bind, Except.bind, Except.map, Refusals.none, pure, Except.pure]

theorem pairwise_keys_readEntries (tree : FileTree) (path : Text) :
    (readEntries tree path).keys.Pairwise (· < ·) := by
  have hnone : (SortedMap.empty : SortedMap Text Text).keys.Pairwise (· < ·) := List.Pairwise.nil
  unfold readEntries
  split
  · rename_i t _
    rcases hentries : entriesOfText? t with _ | entries
    · exact hnone
    · obtain ⟨json, -, hjson⟩ := Option.bind_eq_some_iff.mp hentries
      unfold entriesOfJson? at hjson
      split at hjson
      · obtain ⟨pairs, -, hpairs⟩ := Option.bind_eq_some_iff.mp hjson
        cases hpairs
        exact SortedMap.pairwise_keys_ofList pairs
      · cases hjson
  · exact hnone

theorem readEntries_of_readText {tree : FileTree} {path t : Text} (h : tree.readText path = .ok t) :
    readEntries tree path = (entriesOfText? t).getD .empty := by
  rw [readEntries, h]

/-- A text that holds results is read as these. -/
theorem readEntries_of_written {tree : FileTree} {path : Text} {entries : SortedMap Text Text}
    (hentries : entries.keys.Pairwise (· < ·)) (h : tree.readText path = .ok (writtenEntries entries)) :
    readEntries tree path = entries := by
  rw [readEntries_of_readText h, entriesOfText?_writtenEntries, Option.getD_some, SortedMap.ofList_toList hentries]

/-- What is in the file stays there when folders are made. -/
theorem keys_readEntries_of_within {tree tree' : FileTree} (h : tree.Within tree') (hfiles : tree'.files = tree.files)
    (path : Text) : (readEntries tree path).keys ⊆ (readEntries tree' path).keys := by
  cases hread : tree.readText path with
  | ok t =>
      rw [readEntries_of_readText hread, readEntries_of_readText (h.readText hfiles hread)]
      exact List.Subset.refl _
  | error e =>
      rw [readEntries, hread]
      exact List.nil_subset _

/-- A flush has nothing to do, or is cut short and leaves the store and all files as they are, or puts the results of
the file and of the store in the place of both. -/
theorem attempt_cases {s : Store} {path : Text} (hpath : s.path = some path) (tree : FileTree) (refused : Refusals) :
    (s.isDirty = false ∧ s.attempt tree refused = (.ok (), s, tree)) ∨
    (s.isDirty = true ∧ ∃ e tree', s.attempt tree refused = (.error e, s, tree') ∧ tree.Within tree' ∧
      tree'.files = tree.files) ∨
    (s.isDirty = true ∧ ∃ tree', s.attempt tree refused =
        (.ok (), { s with entries := (readEntries tree path).union s.entries, isDirty := false }, tree') ∧
      tree'.readText path = .ok (writtenEntries ((readEntries tree path).union s.entries))) := by
  unfold attempt
  simp only [hpath]
  cases hdirty : s.isDirty with
  | false => exact .inl ⟨rfl, rfl⟩
  | true =>
      simp only [Bool.not_true, Bool.false_eq_true, if_false, true_and]
      have hwithin := @FileTree.within_makeFolders refused.folder tree (tree.start path) (FileTree.splitPath path).1
      revert hwithin
      rcases FileTree.makeFolders _ tree _ _ with ⟨_ | _, way⟩
      · rintro ⟨hwithin, hfiles⟩
        exact .inr (.inl ⟨_, way, rfl, hwithin, hfiles⟩)
      · rintro ⟨hwithin, hfiles⟩
        dsimp only
        split
        · exact .inr (.inl ⟨_, way, rfl, hwithin, hfiles⟩)
        · split
          · exact .inr (.inl ⟨_, way, rfl, hwithin, hfiles⟩)
          · rename_i written hwrite
            exact .inr (.inr ⟨written, rfl, FileTree.readText_write hwrite (Utf8.decode?_encode _)⟩)

/-- A file, and the stores that share it in the order in which they were opened. -/
structure Shared where
  tree : FileTree
  stores : List Store

/-- What happens to the stores that share a file. -/
inductive Step where
  | opens
  | inserts (i : Nat) (key value : Text)
  | flushes (i : Nat) (refused : Refusals)

namespace Shared

variable {path : Text} {st : Shared}

/-- One step. -/
def step (path : Text) (st : Shared) : Step → Shared
  | .opens => { st with stores := st.stores ++ [openAt st.tree path] }
  | .inserts i key value => { st with stores := st.stores.modify i fun s => s.insert key value }
  | .flushes i refused =>
    match st.stores[i]? with
    | none => st
    | some s => ⟨(s.attempt st.tree refused).2.2, st.stores.set i (s.attempt st.tree refused).2.1⟩

/-- Any number of steps. -/
def run (path : Text) (st : Shared) (steps : List Step) : Shared := steps.foldl (step path) st

/-- The file as a store that is opened now finds it. -/
def held (path : Text) (st : Shared) : SortedMap Text Text := readEntries st.tree path

/-- What holds between any two steps. -/
structure Sound (path : Text) (st : Shared) : Prop where
  path_eq : ∀ s ∈ st.stores, s.path = some path
  ascending : ∀ s ∈ st.stores, s.entries.keys.Pairwise (· < ·)
  saved : ∀ s ∈ st.stores, s.isDirty = false → s.entries.keys ⊆ (st.held path).keys

/-- The whole outcome of a flush that succeeds with something to save. -/
structure Merged (path : Text) (s : Store) (tree : FileTree) (s' : Store) (tree' : FileTree) : Prop where
  /-- The file holds the union of what it held and of the store's entries. -/
  file : tree'.readText path = .ok (writtenEntries ((readEntries tree path).union s.entries))
  held : readEntries tree' path = (readEntries tree path).union s.entries
  /-- The store's values win. -/
  wins : ∀ key, (readEntries tree' path).get? key = (s.entries.get? key).or ((readEntries tree path).get? key)
  /-- The store holds the same as the file and has nothing unsaved: a store that is opened now is no different. -/
  store : s' = openAt tree' path

theorem Sound.merged (h : st.Sound path) {s s' : Store} (hs : s ∈ st.stores) (hdirty : s.isDirty = true)
    {refused : Refusals} {tree' : FileTree} (hflush : s.attempt st.tree refused = (.ok (), s', tree')) :
    Merged path s st.tree s' tree' := by
  obtain ⟨hclean, -⟩ | ⟨-, e, way, hfail, -⟩ | ⟨-, written, hdone, hread⟩ :=
    attempt_cases (h.path_eq s hs) st.tree refused
  · rw [hclean] at hdirty
    cases hdirty
  · rw [hfail] at hflush
    cases hflush
  · rw [hdone] at hflush
    cases hflush
    have hsorted := SortedMap.pairwise_keys_union (pairwise_keys_readEntries st.tree path) s.entries
    have hheld := readEntries_of_written hsorted hread
    refine ⟨hread, hheld, fun key => ?_, ?_⟩
    · rw [hheld, SortedMap.get?_union (SortedMap.nodup_keys (h.ascending s hs))]
    · rw [openAt, hheld, ← h.path_eq s hs]

/-- No key leaves the file. -/
theorem Sound.keys_held_step (h : st.Sound path) (a : Step) : (st.held path).keys ⊆ ((st.step path a).held path).keys := by
  cases a with
  | opens => exact List.Subset.refl _
  | inserts i key value => exact List.Subset.refl _
  | flushes i refused =>
      simp only [step]
      cases hs : st.stores[i]? with
      | none => exact List.Subset.refl _
      | some s =>
          have hmem := List.mem_of_getElem? hs
          obtain ⟨-, hclean⟩ | ⟨-, e, way, hfail, hwithin, hfiles⟩ | ⟨hdirty, written, hdone, -⟩ :=
            attempt_cases (h.path_eq s hmem) st.tree refused
          · simp only [hclean]
            exact List.Subset.refl _
          · simp only [hfail]
            exact keys_readEntries_of_within hwithin hfiles path
          · have hmerged := h.merged hmem hdirty hdone
            simp only [hdone]
            intro key hkey
            rw [held, hmerged.held, SortedMap.mem_keys_union (SortedMap.nodup_keys (h.ascending s hmem))]
            exact .inl hkey

/-- What holds of the stores after a step is shown for the one store that the step is about: no other store changes, and
the file only takes keys in. -/
theorem Sound.of_stores {st' : Shared} (h : st.Sound path) (hheld : (st.held path).keys ⊆ (st'.held path).keys)
    (hstores : ∀ s ∈ st'.stores, s ∈ st.stores ∨ (s.path = some path ∧ s.entries.keys.Pairwise (· < ·) ∧
      (s.isDirty = false → s.entries.keys ⊆ (st'.held path).keys))) : st'.Sound path where
  path_eq s hs := (hstores s hs).elim (h.path_eq s) And.left
  ascending s hs := (hstores s hs).elim (h.ascending s) fun hnew => hnew.2.1
  saved s hs hclean :=
    (hstores s hs).elim (fun hold => List.Subset.trans (h.saved s hold hclean) hheld) fun hnew => hnew.2.2 hclean

theorem Sound.step (h : st.Sound path) (a : Step) : (st.step path a).Sound path := by
  refine h.of_stores (h.keys_held_step a) ?_
  cases a with
  | opens =>
      intro s hs
      rcases List.mem_append.mp hs with hold | hnew
      · exact .inl hold
      · obtain rfl := List.mem_singleton.mp hnew
        exact .inr ⟨rfl, pairwise_keys_readEntries st.tree path, fun _ => List.Subset.refl _⟩
  | inserts i key value =>
      intro s hs
      obtain ⟨j, hj, rfl⟩ := List.mem_iff_getElem.mp hs
      have hlt : j < st.stores.length := by simpa [Shared.step] using hj
      have hmem : st.stores[j] ∈ st.stores := List.getElem_mem hlt
      have hpath := h.path_eq _ hmem
      simp only [Shared.step, List.getElem_modify]
      split
      · exact .inr ⟨hpath, SortedMap.pairwise_keys_insert (h.ascending _ hmem) key value,
          fun hclean => by cases hclean⟩
      · exact .inl hmem
  | flushes i refused =>
      intro s' hs'
      simp only [Shared.step] at hs' ⊢
      cases hs : st.stores[i]? with
      | none =>
          rw [hs] at hs'
          exact .inl hs'
      | some s =>
          rw [hs] at hs'
          have hmem := List.mem_of_getElem? hs
          rcases List.mem_or_eq_of_mem_set hs' with hold | rfl
          · exact .inl hold
          · obtain ⟨-, hclean⟩ | ⟨-, e, way, hfail, -⟩ | ⟨hdirty, written, hdone, -⟩ :=
              attempt_cases (h.path_eq s hmem) st.tree refused
            · rw [hclean]
              exact .inl hmem
            · rw [hfail]
              exact .inl hmem
            · have hmerged := h.merged hmem hdirty hdone
              simp only [hdone, held]
              rw [← hmerged.held]
              exact .inr ⟨h.path_eq s hmem, pairwise_keys_readEntries _ path, fun _ => List.Subset.refl _⟩

theorem sound_run (h : st.Sound path) (steps : List Step) : (st.run path steps).Sound path := by
  induction steps generalizing st with
  | nil => exact h
  | cons a steps ih => exact ih (h.step a)

theorem Sound.keys_held_run (h : st.Sound path) (steps : List Step) :
    (st.held path).keys ⊆ ((st.run path steps).held path).keys := by
  induction steps generalizing st with
  | nil => exact List.Subset.refl _
  | cons a steps ih => exact List.Subset.trans (h.keys_held_step a) (ih (h.step a))

/-- No store has been opened yet. -/
theorem sound_unopened (tree : FileTree) (path : Text) : Sound path ⟨tree, []⟩ :=
  ⟨by simp, by simp, by simp⟩

theorem run_append (path : Text) (st : Shared) (steps more : List Step) :
    st.run path (steps ++ more) = (st.run path steps).run path more := List.foldl_append

/-- A flush of the store would succeed now. -/
def Succeeds (st : Shared) (i : Nat) (refused : Refusals) : Prop :=
  ∃ s, st.stores[i]? = some s ∧ (s.attempt st.tree refused).1 = .ok ()

/-- Every insert into the store, once it is open, is followed by a flush of it that succeeds. -/
def AllFlushed (path : Text) (st : Shared) (i : Nat) (steps : List Step) : Prop :=
  ∀ before key value after, steps = before ++ .inserts i key value :: after →
    i < (st.run path before).stores.length →
    ∃ between refused rest, after = between ++ .flushes i refused :: rest ∧
      (st.run path (before ++ .inserts i key value :: between)).Succeeds i refused

/-- What a step has made of a store: it was opened, took a result in, was flushed, or is as it was. -/
theorem Sound.store_cases (h : st.Sound path) {a : Step} {i : Nat} {s' : Store}
    (hs' : (st.step path a).stores[i]? = some s') :
    (st.stores[i]? = none ∧ s'.isDirty = false ∧ a = .opens) ∨
    (i < st.stores.length ∧ s'.isDirty = true ∧ ∃ key value, a = .inserts i key value) ∨
    (s'.isDirty = false ∧ ∃ refused, a = .flushes i refused ∧ st.Succeeds i refused) ∨
    (st.stores[i]? = some s' ∧ (∀ key value, a ≠ .inserts i key value) ∧
      ∀ refused, a = .flushes i refused → ¬st.Succeeds i refused) := by
  cases a with
  | opens =>
      simp only [Shared.step, List.getElem?_append] at hs'
      split at hs'
      · exact .inr (.inr (.inr ⟨hs', by simp, by simp⟩))
      · rename_i hnew
        obtain rfl : openAt st.tree path = s' := by
          rw [List.getElem?_singleton] at hs'
          split at hs' <;> cases hs'
          rfl
        exact .inl ⟨List.getElem?_eq_none (Nat.not_lt.mp hnew), rfl, rfl⟩
  | inserts j key value =>
      simp only [Shared.step, List.getElem?_modify] at hs'
      obtain ⟨s, hs, rfl⟩ := Option.map_eq_some_iff.mp hs'
      by_cases hij : j = i
      · subst hij
        refine .inr (.inl ⟨(List.getElem?_eq_some_iff.mp hs).1, ?_, key, value, rfl⟩)
        rw [if_pos rfl]
        rfl
      · rw [if_neg hij]
        refine .inr (.inr (.inr ⟨hs, fun key' value' heq => ?_, by simp⟩))
        cases heq
        exact hij rfl
  | flushes j refused =>
      simp only [Shared.step] at hs'
      cases hj : st.stores[j]? with
      | none =>
          rw [hj] at hs'
          refine .inr (.inr (.inr ⟨hs', by simp, fun refused' heq hsucceeds => ?_⟩))
          cases heq
          obtain ⟨s, hs, -⟩ := hsucceeds
          rw [hj] at hs
          cases hs
      | some s =>
          rw [hj] at hs'
          by_cases hij : j = i
          · subst hij
            have hlt : j < st.stores.length := (List.getElem?_eq_some_iff.mp hj).1
            simp only [List.getElem?_set_self hlt, Option.some.injEq] at hs'
            subst hs'
            obtain ⟨hclean, hnothing⟩ | ⟨-, e, way, hfail, -⟩ | ⟨-, written, hdone, -⟩ :=
              attempt_cases (h.path_eq s (List.mem_of_getElem? hj)) st.tree refused
            · exact .inr (.inr (.inl ⟨by rw [hnothing]; exact hclean, refused, rfl, s, hj, by rw [hnothing]⟩))
            · refine .inr (.inr (.inr ⟨by rw [hfail]; exact hj, by simp, fun refused' heq hsucceeds => ?_⟩))
              cases heq
              obtain ⟨s'', hs'', hok⟩ := hsucceeds
              cases hj.symm.trans hs''
              rw [hfail] at hok
              cases hok
            · exact .inr (.inr (.inl ⟨by rw [hdone], refused, rfl, s, hj, by rw [hdone]⟩))
          · simp only [List.getElem?_set_ne hij] at hs'
            refine .inr (.inr (.inr ⟨hs', by simp, fun refused' heq => ?_⟩))
            cases heq
            exact absurd rfl hij

theorem length_stores_le_run (path : Text) (st : Shared) (steps : List Step) :
    st.stores.length ≤ (st.run path steps).stores.length := by
  have hstep (st : Shared) (a : Step) : st.stores.length ≤ (st.step path a).stores.length := by
    cases a with
    | opens => simp [Shared.step]
    | inserts i key value => simp [Shared.step]
    | flushes i refused =>
        simp only [Shared.step]
        split <;> simp
  induction steps generalizing st with
  | nil => exact Nat.le_refl _
  | cons a steps ih => exact Nat.le_trans (hstep st a) (ih (st.step path a))

/-- The last step is the one that is looked for, or that one is further up. -/
theorem concat_eq_append_cons {steps before after : List Step} {a b : Step} (h : steps ++ [a] = before ++ b :: after) :
    (a = b ∧ steps = before ∧ after = []) ∨ ∃ after', after = after' ++ [a] ∧ steps = before ++ b :: after' := by
  rcases List.eq_nil_or_concat after with rfl | ⟨after', c, rfl⟩
  · obtain ⟨rfl, hlast⟩ := List.append_inj' h rfl
    exact .inl ⟨List.singleton_inj.mp hlast, rfl, rfl⟩
  · rw [List.concat_eq_append, ← List.cons_append, ← List.append_assoc] at h
    obtain ⟨hsteps, hlast⟩ := List.append_inj' h rfl
    rw [List.singleton_inj.mp hlast]
    exact .inr ⟨after', List.concat_eq_append, hsteps⟩

/-- The mark of a store says whether something is unsaved. -/
theorem isDirty_eq_false_iff {tree : FileTree} {steps : List Step} {i : Nat} {s : Store}
    (hs : (run path ⟨tree, []⟩ steps).stores[i]? = some s) :
    s.isDirty = false ↔ AllFlushed path ⟨tree, []⟩ i steps := by
  induction steps using List.reverseRecOn generalizing s with
  | nil => cases hs
  | append_singleton steps a ih =>
      rw [run_append] at hs
      obtain ⟨hnone, hclean, rfl⟩ | ⟨hopen, hdirty, key, value, rfl⟩ | ⟨hclean, refused, rfl, hsucceeds⟩ |
          ⟨hkept, hinsert, hflush⟩ := (sound_run (sound_unopened tree path) steps).store_cases hs
      · refine ⟨fun _ before key value after hsplit hopen => ?_, fun _ => hclean⟩
        obtain ⟨hstep, -, -⟩ | ⟨after', -, rfl⟩ := concat_eq_append_cons hsplit
        · cases hstep
        · rw [run_append, List.getElem?_eq_none_iff] at hnone
          have hgrown := length_stores_le_run path (run path ⟨tree, []⟩ before) (.inserts i key value :: after')
          omega
      · refine ⟨fun hclean => absurd (hdirty.symm.trans hclean) (by decide), fun hall => ?_⟩
        obtain ⟨between, refused, rest, hafter, -⟩ := hall steps key value [] rfl hopen
        exact absurd hafter (by simp)
      · refine ⟨fun _ before key value after hsplit hopen => ?_, fun _ => hclean⟩
        obtain ⟨hstep, -, -⟩ | ⟨after', rfl, rfl⟩ := concat_eq_append_cons hsplit
        · cases hstep
        · exact ⟨after', refused, [], rfl, hsucceeds⟩
      · rw [ih hkept]
        constructor
        · intro hall before key value after hsplit hopen
          obtain ⟨hstep, -, -⟩ | ⟨after', rfl, rfl⟩ := concat_eq_append_cons hsplit
          · exact absurd hstep (hinsert key value)
          · obtain ⟨between, refused, rest, rfl, hsucceeds⟩ := hall before key value after' rfl hopen
            exact ⟨between, refused, rest ++ [a], by simp, hsucceeds⟩
        · intro hall before key value after hsplit hopen
          obtain ⟨between, refused, rest, hafter, hsucceeds⟩ :=
            hall before key value (after ++ [a]) (by rw [hsplit, List.append_assoc, List.cons_append]) hopen
          obtain ⟨rfl, rfl, rfl⟩ | ⟨rest', rfl, rfl⟩ := concat_eq_append_cons hafter
          · exact absurd (hsplit ▸ hsucceeds) (hflush refused rfl)
          · exact ⟨between, refused, rest', rfl, hsucceeds⟩

/-- Stores that share a file lose nothing that was saved. -/
structure KeepsResults (path : Text) (tree : FileTree) (steps : List Step) : Prop where
  /-- What is in the file stays there, whatever comes next. -/
  stays : ∀ more, ((run path ⟨tree, []⟩ steps).held path).keys ⊆ ((run path ⟨tree, []⟩ (steps ++ more)).held path).keys
  /-- A flush that has something to save and succeeds leaves the union of the file and the store in both. -/
  merges : ∀ s ∈ (run path ⟨tree, []⟩ steps).stores, s.isDirty = true → ∀ refused s' tree',
    s.attempt (run path ⟨tree, []⟩ steps).tree refused = (.ok (), s', tree') →
      Merged path s (run path ⟨tree, []⟩ steps).tree s' tree'
  /-- The mark of a store is off when all that it took in was flushed. -/
  marked : ∀ i s, (run path ⟨tree, []⟩ steps).stores[i]? = some s →
    (s.isDirty = false ↔ AllFlushed path ⟨tree, []⟩ i steps)
  /-- Then the file has all its keys. -/
  saved : ∀ s ∈ (run path ⟨tree, []⟩ steps).stores, s.isDirty = false →
    s.entries.keys ⊆ ((run path ⟨tree, []⟩ steps).held path).keys
  /-- A flush that fails leaves the store as it was, and all files. -/
  fails : ∀ s ∈ (run path ⟨tree, []⟩ steps).stores, ∀ refused e s' tree',
    s.attempt (run path ⟨tree, []⟩ steps).tree refused = (.error e, s', tree') →
      s' = s ∧ tree'.files = (run path ⟨tree, []⟩ steps).tree.files ∧
        ∀ t, (run path ⟨tree, []⟩ steps).tree.readText path = .ok t → tree'.readText path = .ok t

theorem keepsResults (path : Text) (tree : FileTree) (steps : List Step) : KeepsResults path tree steps := by
  have hsound := sound_run (sound_unopened tree path) steps
  refine ⟨fun more => ?_, fun s hs hdirty refused s' tree' => hsound.merged hs hdirty, fun i s => isDirty_eq_false_iff,
    hsound.saved, fun s hs refused e s' tree' hfails => ?_⟩
  · rw [run_append]
    exact hsound.keys_held_run more
  · obtain ⟨-, hclean⟩ | ⟨-, e', way, hfail, hwithin, hfiles⟩ | ⟨-, written, hdone, -⟩ :=
      attempt_cases (hsound.path_eq s hs) (run path ⟨tree, []⟩ steps).tree refused
    · rw [hclean] at hfails
      cases hfails
    · rw [hfail] at hfails
      cases hfails
      exact ⟨rfl, hfiles, fun t => hwithin.readText hfiles⟩
    · rw [hdone] at hfails
      cases hfails

end Shared

end Highlight.Store

namespace TwoStores

open Highlight.Store Highlight.Store.Shared

def path : Text := "cache.json"

/-- A file that holds no results yet. -/
def tree : FileTree := ⟨[([path], Utf8.encode "\x7bnot json")], [], []⟩

/-- Both stores are open before either is flushed, and the second one at first in vain. -/
def steps : List Step :=
  [.opens, .opens, .inserts 0 "a" "1", .inserts 1 "a" "2", .inserts 1 "b" "3", .flushes 0 .none,
    .flushes 1 ⟨fun _ => none, none, some .isAFolder⟩, .inserts 0 "c" "4", .flushes 1 .none]

/-- The entries of the first store, which is not flushed a second time. -/
def first : SortedMap Text Text := ⟨[("a", "1"), ("c", "4")]⟩

/-- The entries of the second store and of the file. -/
def second : SortedMap Text Text := ⟨[("a", "2"), ("b", "3")]⟩

theorem keepsResults_steps : KeepsResults path tree steps ∧
    ((run path ⟨tree, []⟩ steps).held path).toList = second.toList ∧
    (run path ⟨tree, []⟩ steps).stores.map (fun s => (s.entries.toList, s.isDirty)) =
      [(first.toList, true), (second.toList, false)] :=
  ⟨keepsResults path tree steps, by decide +kernel, by decide +kernel⟩

end TwoStores

end Manuscript
