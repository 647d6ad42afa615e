import SpanRules.Files.Resource

/-! Files that are written. A name leads to the same place after a file was put there, so that what
was written under a name is read under it. What is read under any name is a file that is there. -/
namespace SpanRules

inductive Location.TakesFile : Location → Path → Prop
  | free {p} : TakesFile (.free p) p
  | found {p c} : TakesFile (.found p (.file c)) p

namespace FileSystem
variable {fs fs' : FileSystem} {dir p q : Path} {n : Node} {name contents : Text}
  {names : List Text} {at' : Location}

theorem node?_put (hp : p ≠ []) : (fs.put p n).node? q = if q = p then some n else fs.node? q := by
  have hfilter : ∀ nodes : List (Path × Node), q ≠ p →
      (nodes.filter (·.1 != p)).lookup q = nodes.lookup q := by
    intro nodes hqp
    induction nodes with
    | nil => rfl
    | cons e nodes ih =>
      by_cases hep : e.1 = p
      · rw [List.filter_cons_of_neg (by simp [hep]), ih, List.lookup_cons,
          beq_false_of_ne (hep ▸ hqp)]
      · rw [List.filter_cons_of_pos (by simp [hep]), List.lookup_cons, List.lookup_cons, ih]
  by_cases hqp : q = p
  · subst hqp
    rw [node?, if_neg hp, put, List.lookup_cons_self, if_pos rfl]
  · rw [node?, node?, put, List.lookup_cons, beq_false_of_ne hqp, hfilter _ hqp, if_neg hqp]

/-- The first of some names leads from one directory to another wherever the directories are the
same, or is the last and leads to any file that is in its place. -/
theorem walk_cons_eq_ok (h : fs.walk dir (name :: names) = .ok at') :
    (∃ dir', fs.walk dir' names = .ok at' ∧ ∀ fs' : FileSystem,
      (∀ q, fs.node? q = some .directory → fs'.node? q = some .directory) →
      fs'.walk dir (name :: names) = fs'.walk dir' names) ∨
    ∃ q, at'.TakesFile q ∧ fs.node? q ≠ some .directory ∧
      ∀ (fs' : FileSystem) (c : Text), fs'.node? q = some (.file c) →
        fs'.walk dir (name :: names) = .ok (.found q (.file c)) := by
  simp only [walk] at h ⊢
  split at h
  · rename_i hpoint
    exact .inl ⟨dir, h, fun _ _ => if_pos hpoint⟩
  rename_i hpoint
  split at h
  · rename_i hpoints
    exact .inl ⟨dir.dropLast, h, fun _ _ => by rw [if_neg hpoint, if_pos hpoints]⟩
  rename_i hpoints
  split at h
  · cases h
  rename_i hlength
  simp only [if_neg hpoint, if_neg hpoints, if_neg hlength]
  split at h
  · rename_i hnode
    split at h <;> cases h
    rename_i hnames
    refine .inr ⟨_, .free, by simp [hnode], fun fs' c hc => ?_⟩
    simp only [hc, if_pos hnames]
  · rename_i hnode
    split at h <;> cases h
    rename_i hnames
    refine .inr ⟨_, .found, by simp [hnode], fun fs' c hc => ?_⟩
    simp only [hc, if_pos hnames]
  · rename_i hnode
    refine .inl ⟨_, h, fun fs' hfs' => ?_⟩
    simp only [hfs' _ hnode]

/-- Names that lead to a file or a free place lead to the file that is put there. -/
theorem walk_put_file (h : fs.walk dir names = .ok at') (hp : at'.TakesFile p)
    (contents : Text) :
    fs.node? p ≠ some .directory ∧
      (fs.put p (.file contents)).walk dir names = .ok (.found p (.file contents)) := by
  induction names generalizing dir with
  | nil =>
    rw [walk] at h
    cases h
    cases hp
  | cons name names ih =>
    rcases walk_cons_eq_ok h with ⟨dir', hrest, hstep⟩ | ⟨q, hq, hnode, hstep⟩
    · obtain ⟨hnode, hwalk⟩ := ih hrest
      refine ⟨hnode, ?_⟩
      -- The file hides no directory on the way, because there was none in its place.
      rw [hstep _ fun q hq => ?_, hwalk]
      rw [node?_put (by rintro rfl; exact hnode rfl), if_neg (by rintro rfl; exact hnode hq), hq]
    · obtain rfl : q = p := by
        cases hq <;> cases hp <;> rfl
      have hne : q ≠ [] := by
        rintro rfl
        exact hnode rfl
      exact ⟨hnode, hstep _ _ (by rw [node?_put hne, if_pos rfl])⟩

theorem locate_put_file (h : fs.locate name = .ok at') (hp : at'.TakesFile p)
    (contents : Text) :
    (fs.put p (.file contents)).locate name = .ok (.found p (.file contents)) := by
  simp only [locate, follow] at h ⊢
  split at h
  · cases h
  split at h
  · cases h
  rename_i hempty hlong
  simp only [if_neg hempty, if_neg hlong]
  split at h
  · rw [if_pos ‹_›]
    exact (walk_put_file h hp contents).2
  · rw [if_neg ‹_›]
    exact (walk_put_file h hp contents).2

/-- What was written under a name is read under it. -/
theorem contentsOf_replaceContents (h : fs.replaceContents name contents = .ok fs') :
    fs'.contentsOf name = .ok contents := by
  have hread : ∀ {p fs}, hasSlashAtEnd name = false →
      locate (put fs p (.file contents)) name = .ok (.found p (.file contents)) →
      contentsOf (put fs p (.file contents)) name = .ok contents := by
    intro p fs hslash hlocate
    simp only [contentsOf, look, hlocate, hslash, Bool.false_eq_true, if_false]
  unfold replaceContents prepareWrite at h
  split at h
  · rename_i hwrite
    cases h
    split at hwrite
    · split at hwrite <;> cases hwrite
    · rename_i hslash
      rw [Bool.not_eq_true] at hslash
      split at hwrite <;> cases hwrite
      · rename_i hlocate
        have hempty := locate_put_file hlocate .free []
        exact hread hslash (locate_put_file hempty .found contents)
      · rename_i hlocate
        exact hread hslash (locate_put_file hlocate .found contents)
  · cases h

theorem mem_nodes_of_walk (h : fs.walk dir names = .ok (.found p (.file contents))) :
    (p, .file contents) ∈ fs.nodes := by
  induction names generalizing dir with
  | nil => cases h
  | cons step names ih =>
    simp only [walk] at h
    split at h
    · exact ih h
    split at h
    · exact ih h
    split at h
    · cases h
    split at h
    · split at h <;> cases h
    · rename_i hnode
      split at h <;> cases h
      rw [node?, if_neg (List.append_ne_nil_of_right_ne_nil _ (List.cons_ne_nil _ _))] at hnode
      obtain ⟨before, after, hnodes, -⟩ := List.lookup_eq_some_iff.1 hnode
      rw [hnodes]
      exact List.mem_append_right _ List.mem_cons_self
    · exact ih h

theorem mem_nodes_of_contentsOf (h : fs.contentsOf name = .ok contents) :
    ∃ path, (path, .file contents) ∈ fs.nodes := by
  unfold contentsOf at h
  split at h
  · rename_i c hlook
    cases h
    unfold look at hlook
    split at hlook
    · cases hlook
    · cases hlook
    · cases hlook
    · rename_i path c' hlocate
      split at hlook <;> cases hlook
      unfold locate follow at hlocate
      simp only at hlocate
      split at hlocate
      · cases hlocate
      split at hlocate
      · cases hlocate
      split at hlocate
      · exact ⟨path, mem_nodes_of_walk hlocate⟩
      · exact ⟨path, mem_nodes_of_walk hlocate⟩
  · cases h
  · cases h

end FileSystem

theorem Resources.mem_nodes_of_read {r : Resources} {name contents : Text}
    (h : r.read name = .ok contents) : ∃ path, (path, .file contents) ∈ r.files.nodes := by
  unfold read at h
  cases hfile : r.resolve name with
  | error e =>
    rw [hfile] at h
    cases h
  | ok file =>
    rw [hfile] at h
    exact FileSystem.mem_nodes_of_contentsOf h

end SpanRules
