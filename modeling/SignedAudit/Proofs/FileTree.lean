import SignedAudit.FileTree

namespace SignedAudit

/-! # Looking up what was put

Whatever has a name is kept in an association list, and giving a name something new takes its old entry out. A
lookup then finds what was put under the name, and under all other names what was there before. The same holds
of the places in a tree of files, and so appending to a file makes it grow and changes nothing else. -/

/-! ## Association lists -/

section

variable {α β : Type} [DecidableEq α] [BEq α] [LawfulBEq α]

/-- What stands under a name is what the first entry says, if it is one for the name. -/
theorem lookup_cons_eq_ite (entries : List (α × β)) (name : α) (b : β) (q : α) :
    ((name, b) :: entries).lookup q = if q = name then some b else entries.lookup q := by
  by_cases hself : q = name
  · rw [hself, List.lookup_cons_self, if_pos rfl]
  · rw [List.lookup_cons, beq_false_of_ne hself, if_neg hself]

/-- What stands under a name after it was given something new. -/
theorem lookup_cons_filter (entries : List (α × β)) (name : α) (b : β) (q : α) :
    ((name, b) :: entries.filter (·.1 != name)).lookup q
      = if q = name then some b else entries.lookup q := by
  rw [lookup_cons_eq_ite]
  by_cases hself : q = name
  · rw [if_pos hself, if_pos hself]
  · rw [if_neg hself, if_neg hself]
    induction entries with
    | nil => rfl
    | cons x rest ih =>
        -- what is filtered out stands under the other name
        rw [List.filter_cons, lookup_cons_eq_ite]
        split
        · rw [lookup_cons_eq_ite, ih]
        · next hx =>
            have hother : x.1 = name := by simpa using hx
            rw [ih, hother, if_neg hself]

end

/-! ## Files -/

/-- What a node is with more text behind its content. -/
def Node.grow (text : Bytes) : Node → Node
  | .file content => .file (content ++ text)
  | .directory => .directory

namespace FileTree

theorem node?_put {t : FileTree} {p : Place} (hp : p ≠ []) (n : Node) (q : Place) :
    (t.put p n).node? q = if q = p then some n else t.node? q := by
  unfold node? put
  by_cases hroot : q = []
  · subst hroot
    rw [if_pos rfl, if_neg (Ne.symm hp), if_pos rfl]
  · rw [if_neg hroot, if_neg hroot]
    exact lookup_cons_filter t.nodes p n q

/-- **Appending grows the file at a place**, if there is one, and changes nothing else. -/
theorem node?_append (t : FileTree) (p : Place) (text : Bytes) (q : Place) :
    (t.append p text).node? q = if q = p then (t.node? q).map (Node.grow text) else t.node? q := by
  unfold append
  split
  · next content hfile =>
      have hp : p ≠ [] := by
        rintro rfl
        cases hfile
      rw [node?_put hp]
      split
      · next hself =>
          rw [hself, hfile]
          rfl
      · rfl
  · next hnone =>
      split
      · next hself =>
          rw [hself]
          rcases hnode : t.node? p with _ | content | _
          · rfl
          · exact absurd hnode (hnone content)
          · rfl
      · rfl

theorem home_append (t : FileTree) (p : Place) (text : Bytes) : (t.append p text).home = t.home := by
  unfold append
  split <;> rfl

end FileTree

end SignedAudit
