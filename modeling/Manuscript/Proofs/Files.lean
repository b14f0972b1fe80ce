import Manuscript.Files.Basic

/-!
Reading back what was written.

Main statements: what can be read can still be read where there are more folders (`Within.readText`), and a file that
was written holds just the bytes that were written (`readText_write`, `decode?_of_writeDeep`).
-/

namespace Manuscript

theorem exists_of_bind_eq_ok {ε α β : Type} {x : Except ε α} {f : α → Except ε β} {b : β} (h : x >>= f = .ok b) :
    ∃ a, x = .ok a ∧ f a = .ok b := by
  cases x with
  | error e => cases h
  | ok a => exact ⟨a, rfl, h⟩

namespace FileTree

variable {tree tree' : FileTree}

/-- Every place of the tree is there in the other tree, for files and for folders. -/
structure Within (tree tree' : FileTree) : Prop where
  current : tree'.current = tree.current
  folders : tree.folders ⊆ tree'.folders
  places : tree.files.map Prod.fst ⊆ tree'.files.map Prod.fst

theorem Within.refl (tree : FileTree) : tree.Within tree := ⟨rfl, List.Subset.refl _, List.Subset.refl _⟩

theorem Within.trans {tree'' : FileTree} (h : tree.Within tree') (h' : tree'.Within tree'') : tree.Within tree'' :=
  ⟨h'.current.trans h.current, List.Subset.trans h.folders h'.folders, List.Subset.trans h.places h'.places⟩

theorem Within.hasFolder (h : tree.Within tree') {place : Place} (hplace : tree.hasFolder place = true) :
    tree'.hasFolder place = true := by
  simp only [FileTree.hasFolder, Bool.or_eq_true, List.any_eq_true] at hplace ⊢
  rcases hplace with (hroot | ⟨folder, hfolder, hbelow⟩) | ⟨file, hfile, hbelow⟩
  · exact .inl (.inl hroot)
  · exact .inl (.inr ⟨folder, h.folders hfolder, hbelow⟩)
  · obtain ⟨file', hfile', hsame⟩ := List.mem_map.mp (h.places (List.mem_map_of_mem hfile))
    exact .inr ⟨file', hfile', by rwa [hsame]⟩

/-- A way that can be walked can still be walked when there are more places. -/
theorem Within.walk (h : tree.Within tree') {folder place : Place} {names : List Text}
    (hwalk : tree.walk folder names = .ok place) : tree'.walk folder names = .ok place := by
  induction names generalizing folder with
  | nil => exact hwalk
  | cons name rest ih =>
      rw [FileTree.walk] at hwalk ⊢
      by_cases hstay : name = [] ∨ name = "."
      · rw [if_pos hstay] at hwalk ⊢
        exact ih hwalk
      · rw [if_neg hstay] at hwalk ⊢
        by_cases hback : name = ".."
        · rw [if_pos hback] at hwalk ⊢
          by_cases hroot : folder.isEmpty = true
          · rw [if_pos hroot] at hwalk
            cases hwalk
          · rw [if_neg hroot] at hwalk ⊢
            exact ih hwalk
        · rw [if_neg hback] at hwalk ⊢
          by_cases hlast : rest.isEmpty = true
          · simpa only [hlast, if_true] using hwalk
          · simp only [hlast, Bool.false_eq_true, if_false] at hwalk ⊢
            by_cases hfolder : tree.hasFolder (folder ++ [name]) = true
            · rw [if_pos hfolder] at hwalk
              rw [if_pos (h.hasFolder hfolder)]
              exact ih hwalk
            · rw [if_neg hfolder] at hwalk
              split at hwalk <;> cases hwalk

theorem Within.locate (h : tree.Within tree') {path : Text} {place : Place} (hlocate : tree.locate path = .ok place) :
    tree'.locate path = .ok place := by
  unfold FileTree.locate at hlocate ⊢
  rw [h.current]
  split at hlocate
  · cases hlocate
  · rename_i hsomewhere
    rw [if_neg hsomewhere, show tree'.start path = tree.start path by rw [start, start, h.current]]
    exact h.walk hlocate

/-- What can be read is read as before where there are more places but no other files. -/
theorem Within.readText (h : tree.Within tree') (hfiles : tree'.files = tree.files) {path t : Text}
    (hread : tree.readText path = .ok t) : tree'.readText path = .ok t := by
  obtain ⟨bytes, hbytes, hdecode⟩ := exists_of_bind_eq_ok hread
  obtain ⟨place, hplace, hfile⟩ := exists_of_bind_eq_ok hbytes
  have hsome : tree.file? place = some bytes := by
    split at hfile
    · cases hfile
      assumption
    · cases hfile
  have hsame : tree'.file? place = some bytes := by rw [file?, hfiles, ← file?, hsome]
  simp only [FileTree.readText, readBytes, h.locate hplace, hsame, bind, Except.bind]
  exact hdecode

theorem within_setFolder (tree : FileTree) (place : Place) : tree.Within (tree.setFolder place) :=
  ⟨rfl, List.subset_append_left _ _, List.Subset.refl _⟩

theorem within_setFile (tree : FileTree) (place : Place) (bytes : Bytes) : tree.Within (tree.setFile place bytes) := by
  refine ⟨rfl, List.Subset.refl _, fun p hp => ?_⟩
  obtain ⟨file, hfile, rfl⟩ := List.mem_map.mp hp
  by_cases hsame : file.1 = place
  · simp [setFile, hsame]
  · simp only [setFile, List.map_append, List.mem_append, List.mem_map, List.mem_filter]
    exact .inl ⟨file, ⟨hfile, by simpa using hsame⟩, rfl⟩

theorem file?_setFile (tree : FileTree) (place : Place) (bytes : Bytes) :
    (tree.setFile place bytes).file? place = some bytes := by
  have hother : (tree.files.filter fun f => f.1 != place).find? (fun f => f.1 = place) = none := by
    rw [List.find?_eq_none]
    intro f hf
    simpa using (List.mem_filter.mp hf).2
  simp [file?, setFile, List.find?_append, hother]

/-- A file that was written can be read. -/
theorem readText_write {path t : Text} {bytes : Bytes} (hwrite : tree.write path bytes = .ok tree')
    (hdecode : Utf8.decode? bytes = some t) : tree'.readText path = .ok t := by
  obtain ⟨place, hplace, hset⟩ := exists_of_bind_eq_ok hwrite
  split at hset
  · cases hset
  · cases hset
    have hlocate := (within_setFile tree place bytes).locate hplace
    simp only [readText, readBytes, hlocate, file?_setFile, hdecode, bind, Except.bind]

/-- What is read as a text after a write is the text that the written bytes stand for. -/
theorem decode?_of_writeDeep {path t : Text} {bytes : Bytes} (hwrite : tree.writeDeep path bytes = .ok tree')
    (hread : tree'.readText path = .ok t) : Utf8.decode? bytes = some t := by
  obtain ⟨way, -, hwrite⟩ := exists_of_bind_eq_ok hwrite
  obtain ⟨place, hplace, hwrite⟩ := exists_of_bind_eq_ok hwrite
  split at hwrite
  · cases hwrite
  · cases hwrite
    have hlocate := (within_setFile way place bytes).locate hplace
    simp only [readText, readBytes, hlocate, file?_setFile, bind, Except.bind] at hread
    split at hread
    · rename_i heq
      rw [heq]
      exact congrArg some (Except.ok.inj hread)
    · cases hread

end FileTree

end Manuscript
