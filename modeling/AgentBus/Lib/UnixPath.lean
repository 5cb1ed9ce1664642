import AgentBus.Lib.Text
import Mathlib.Data.List.DropRight

/-!
# Paths of Unix

A path is a string; `components` are what is left of it when repeated
separators and `.` pieces are normalised away, and two paths name the same file
when these agree. `joinPath`, `parentPath`, `fileName` and `withFileName` are
the standard library's, on strings; the lemmas say what they do to the
components.
-/

namespace AgentBus.Lib

abbrev Path := String

inductive Component where
  | rootDir
  | curDir
  | parentDir
  | normal (s : String)
  deriving DecidableEq, Repr

/-- Empty and `.` pieces are normalised away. -/
def Component.ofPiece : String → Option Component
  | "" => none
  | "." => none
  | ".." => some .parentDir
  | s => some (.normal s)

def components (path : Path) : List Component :=
  (if path.toList.head? = some '/' then [.rootDir]
    else if (split '/' path).head? = some "." then [.curDir] else []) ++
  (split '/' path).filterMap Component.ofPiece

/-- An absolute `file` replaces `dir`. -/
def joinPath (dir : Path) (file : String) : Path :=
  if file.toList.head? = some '/' then file
  else if dir.isEmpty || dir.toList.getLast? = some '/' then dir ++ file
  else dir ++ "/" ++ file

/-- The component that stands before the body of a path. -/
def lead (pieces : List String) : List Component :=
  if pieces.head? = some "" ∧ 1 < pieces.length then [.rootDir]
  else if pieces.head? = some "." then [.curDir] else []

def ofPieces (pieces : List String) : Path :=
  if pieces = [""] then "/" else String.intercalate "/" pieces

/-- Trailing pieces that are no component are dropped. -/
def trimPieces (pieces : List String) : List String :=
  pieces.rdropWhile fun s => (Component.ofPiece s).isNone

/-- The path without its last component and the separators before it. -/
def parentPath (path : Path) : Option Path :=
  match (components path).getLast? with
  | none => none
  | some .rootDir => none
  | some .curDir => some ""
  | some _ =>
    let pieces := split '/' path
    let start := (lead pieces).length
    some (ofPieces (pieces.take start ++ trimPieces (trimPieces (pieces.drop start)).dropLast))

def fileName (path : Path) : Option String :=
  match (components path).getLast? with
  | some (.normal s) => some s
  | _ => none

def withFileName (path : Path) (name : String) : Path :=
  joinPath (if (fileName path).isSome then (parentPath path).getD path else path) name

/-! ## Pieces -/

theorem split_ne_nil (sep : Char) (s : String) : split sep s ≠ [] := by
  simp [split]

theorem notMem_of_mem_splitOn {α : Type*} [BEq α] [LawfulBEq α] {sep : α} {l piece : List α}
    (h : piece ∈ l.splitOn sep) : sep ∉ piece := by
  induction l generalizing piece with
  | nil =>
    rw [List.splitOn_nil, List.mem_singleton] at h
    simp [h]
  | cons c l ih =>
    rw [List.splitOn_cons_eq_if_modifyHead] at h
    split at h
    · rcases List.mem_cons.mp h with rfl | h
      · exact List.not_mem_nil
      · exact ih h
    · next hne =>
      obtain ⟨first, rest, hfirst⟩ := List.exists_cons_of_ne_nil (List.splitOn_ne_nil sep l)
      rw [hfirst, List.modifyHead_cons] at h
      rcases List.mem_cons.mp h with rfl | h
      · have hmem := ih (hfirst ▸ List.mem_cons_self)
        have hsep : sep ≠ c := fun heq => hne (beq_iff_eq.mpr heq.symm)
        simp [hsep, hmem]
      · exact ih (hfirst ▸ List.mem_cons_of_mem _ h)

theorem notMem_of_mem_split {sep : Char} {s piece : String} (h : piece ∈ split sep s) :
    sep ∉ piece.toList := by
  obtain ⟨cs, hcs, rfl⟩ := List.mem_map.mp h
  rw [String.toList_ofList]
  exact notMem_of_mem_splitOn hcs

theorem split_append {sep : Char} (a : String) {b : String} (hb : sep ∉ b.toList) :
    split sep (a ++ String.singleton sep ++ b) = split sep a ++ [b] := by
  simp [split, List.splitOn_append_cons_self, List.splitOn_eq_singleton hb]

theorem split_intercalate {pieces : List String} (hne : pieces ≠ [])
    (h : ∀ p ∈ pieces, '/' ∉ p.toList) : split '/' (String.intercalate "/" pieces) = pieces := by
  have hlists : ∀ l ∈ pieces.map String.toList, '/' ∉ l := by
    intro l hl
    obtain ⟨p, hp, rfl⟩ := List.mem_map.mp hl
    exact h p hp
  have hsep : "/".toList = ['/'] := rfl
  rw [split, String.toList_intercalate, hsep,
    List.splitOn_intercalate '/' hlists (by simpa using hne), List.map_map]
  simp [Function.comp_def]

theorem intercalate_split (path : Path) : String.intercalate "/" (split '/' path) = path := by
  have hsep : "/".toList = ['/'] := rfl
  rw [← String.toList_inj, String.toList_intercalate, split, List.map_map, hsep]
  have hid : String.toList ∘ String.ofList = id := funext fun _ => String.toList_ofList
  rw [hid, List.map_id, List.intercalate_splitOn]

theorem head?_eq_slash_iff (path : Path) : path.toList.head? = some '/' ↔
    (split '/' path).head? = some "" ∧ 1 < (split '/' path).length := by
  rw [split]
  cases path.toList with
  | nil => simp
  | cons c cs =>
    obtain ⟨first, rest, hfirst⟩ := List.exists_cons_of_ne_nil (List.splitOn_ne_nil '/' cs)
    rw [List.splitOn_cons_eq_if_modifyHead]
    by_cases hc : c = '/'
    · simp [hc, hfirst]
    · simp [hc, hfirst]

theorem components_eq (path : Path) :
    components path = lead (split '/' path) ++ (split '/' path).filterMap Component.ofPiece := by
  simp only [components, lead, head?_eq_slash_iff]

theorem lead_append {pieces : List String} (hne : pieces ≠ []) (last : String) :
    lead (pieces ++ [last]) = if pieces = [""] then [.rootDir] else lead pieces := by
  obtain ⟨p, ps, rfl⟩ := List.exists_cons_of_ne_nil hne
  cases ps with
  | nil => simp [lead]
  | cons q ps => simp [lead]

theorem components_ofPieces {pieces : List String} (h : ∀ p ∈ pieces, '/' ∉ p.toList) :
    components (ofPieces pieces) =
      if pieces = [""] then [.rootDir] else lead pieces ++ pieces.filterMap Component.ofPiece := by
  unfold ofPieces
  split
  · decide
  · cases pieces with
    | nil => decide
    | cons p ps => rw [components_eq, split_intercalate (List.cons_ne_nil p ps) h]

/-! ## Joining -/

/-- A string that names a file in a directory. -/
structure IsFileName (file : String) : Prop where
  ne_empty : file ≠ ""
  ne_dot : file ≠ "."
  ne_dotdot : file ≠ ".."
  noSlash : '/' ∉ file.toList

namespace IsFileName

variable {file : String}

theorem ofPiece (h : IsFileName file) : Component.ofPiece file = some (.normal file) := by
  unfold Component.ofPiece
  split
  · exact absurd rfl h.ne_empty
  · exact absurd rfl h.ne_dot
  · exact absurd rfl h.ne_dotdot
  · rfl

theorem split_eq (h : IsFileName file) : split '/' file = [file] := by
  rw [split, List.splitOn_eq_singleton h.noSlash]
  simp

theorem components_eq (h : IsFileName file) : components file = [.normal file] := by
  rw [Lib.components_eq, h.split_eq]
  simp [lead, h.ofPiece, h.ne_dot]

/-- A file joined to a directory is its direct child. -/
theorem components_joinPath (h : IsFileName file) (dir : Path) :
    components (joinPath dir file) = components dir ++ [.normal file] := by
  have hhead : file.toList.head? ≠ some '/' := fun hf => h.noSlash (List.mem_of_head? hf)
  have happend : ∀ d : String, components (d ++ "/" ++ file) =
      (if split '/' d = [""] then [.rootDir] else lead (split '/' d)) ++
        (split '/' d).filterMap Component.ofPiece ++ [.normal file] := by
    intro d
    rw [Lib.components_eq, show "/" = String.singleton '/' from rfl, split_append d h.noSlash,
      lead_append (split_ne_nil '/' d), List.filterMap_append]
    simp [h.ofPiece]
  rw [joinPath, if_neg hhead]
  split
  · next hend =>
    rw [Bool.or_eq_true, decide_eq_true_eq, String.isEmpty_iff] at hend
    rcases hend with rfl | hslash
    · have hnil : components "" = [] := by decide
      rw [String.empty_append, h.components_eq, hnil, List.nil_append]
    · obtain ⟨init, hinit⟩ := List.getLast?_eq_some_iff.mp hslash
      have hdir : dir = String.ofList init ++ "/" := by
        rw [← String.toList_inj, hinit]
        simp
      have hcomponents := happend (String.ofList init)
      rw [hdir, hcomponents, Lib.components_eq (String.ofList init ++ "/")]
      have hsplit : split '/' (String.ofList init ++ "/") =
          split '/' (String.ofList init) ++ [""] := by
        rw [← split_append (b := "") _ (by simp), String.append_empty]
        rfl
      rw [hsplit, lead_append (split_ne_nil '/' _), List.filterMap_append]
      simp [Component.ofPiece]
  · next hend =>
    rw [Bool.or_eq_true, String.isEmpty_iff, not_or] at hend
    have hpieces : split '/' dir ≠ [""] := fun heq =>
      hend.1 (by rw [← intercalate_split dir, heq]; rfl)
    rw [happend, if_neg hpieces, Lib.components_eq dir]

end IsFileName

/-! ## Parents -/

theorem filterMap_trimPieces (pieces : List String) :
    (trimPieces pieces).filterMap Component.ofPiece = pieces.filterMap Component.ofPiece := by
  induction pieces using List.reverseRecOn with
  | nil => rfl
  | append_singleton ps p ih =>
    rw [trimPieces, List.rdropWhile_concat]
    split
    · next hp =>
      rw [Option.isNone_iff_eq_none] at hp
      rw [List.filterMap_append, ← ih]
      simp [trimPieces, hp]
    · rfl

theorem trimPieces_eq {pieces : List String} (hne : trimPieces pieces ≠ []) :
    ∃ init last c, trimPieces pieces = init ++ [last] ∧ Component.ofPiece last = some c := by
  have hlast := List.rdropWhile_last_not (fun s => (Component.ofPiece s).isNone) pieces hne
  rw [Option.isNone_iff_eq_none] at hlast
  obtain ⟨c, hc⟩ := Option.ne_none_iff_exists'.mp hlast
  exact ⟨_, _, c, (List.dropLast_append_getLast hne).symm, hc⟩

theorem components_cut {pieces rest : List String} (hslash : ∀ p ∈ pieces, '/' ∉ p.toList)
    (hrest : trimPieces rest <+: pieces.drop (lead pieces).length) :
    components (ofPieces (pieces.take (lead pieces).length ++ trimPieces rest)) =
      lead pieces ++ rest.filterMap Component.ofPiece := by
  have hpieces : pieces.take (lead pieces).length ++ trimPieces rest <+: pieces := by
    have hsplit := (List.prefix_append_right_inj (pieces.take (lead pieces).length)).mpr hrest
    rwa [List.take_append_drop] at hsplit
  rw [components_ofPieces fun p hp => hslash p (hpieces.subset hp), ← filterMap_trimPieces rest]
  by_cases hroot : pieces.head? = some "" ∧ 1 < pieces.length
  · obtain ⟨ps, hps⟩ := List.head?_eq_some_iff.mp hroot.1
    have hlead : lead pieces = [.rootDir] := by rw [lead, if_pos hroot]
    rw [hlead, hps, List.length_singleton, List.take_succ_cons, List.take_zero,
      List.singleton_append]
    cases trimPieces rest with
    | nil => simp
    | cons q qs => simp [lead, Component.ofPiece]
  · by_cases hdot : pieces.head? = some "."
    · obtain ⟨ps, hps⟩ := List.head?_eq_some_iff.mp hdot
      have hlead : lead pieces = [.curDir] := by rw [lead, if_neg hroot, if_pos hdot]
      rw [hlead, hps, List.length_singleton, List.take_succ_cons, List.take_zero,
        List.singleton_append]
      simp [lead, Component.ofPiece]
    · have hlead : lead pieces = [] := by rw [lead, if_neg hroot, if_neg hdot]
      rw [hlead, List.length_nil, List.take_zero, List.nil_append] at hpieces ⊢
      cases hq : trimPieces rest with
      | nil => rfl
      | cons q qs =>
        obtain ⟨init, last, c, hlast, hc⟩ := trimPieces_eq (hq ▸ List.cons_ne_nil q qs)
        have hne : q :: qs ≠ [""] := by
          intro heq
          rw [hq, heq] at hlast
          have hlast' : some "" = some last :=
            (congrArg List.getLast? hlast).trans List.getLast?_concat
          rw [← Option.some.inj hlast'] at hc
          cases hc
        rw [hq] at hpieces
        obtain ⟨more, hmore⟩ := hpieces
        have hhead : pieces.head? = some q := by rw [← hmore]; rfl
        have hlength : (q :: qs).length ≤ pieces.length := by rw [← hmore]; simp
        have hnolead : lead (q :: qs) = [] := by
          rw [lead, if_neg fun hr => hroot ⟨hhead.trans hr.1, Nat.lt_of_lt_of_le hr.2 hlength⟩]
          exact if_neg fun hd => hdot (hhead.trans hd)
        rw [if_neg hne, hnolead]

theorem filterMap_take_lead (pieces : List String) :
    (pieces.take (lead pieces).length).filterMap Component.ofPiece = [] := by
  cases pieces with
  | nil => simp
  | cons p ps =>
    unfold lead
    split
    · next h => simp [Option.some.inj h.1, Component.ofPiece]
    · split
      · next h => simp [Option.some.inj h, Component.ofPiece]
      · rfl

theorem components_eq_body (path : Path) : components path = lead (split '/' path) ++
    ((split '/' path).drop (lead (split '/' path)).length).filterMap Component.ofPiece := by
  rw [components_eq]
  nth_rewrite 2 [← List.take_append_drop (lead (split '/' path)).length (split '/' path)]
  rw [List.filterMap_append, filterMap_take_lead, List.nil_append]

theorem not_mem_lead {pieces : List String} {s : String} : .normal s ∉ lead pieces := by
  unfold lead
  split
  · simp
  · split <;> simp

theorem components_parentPath {path : Path} {s : String}
    (h : (components path).getLast? = some (.normal s)) : ∃ parent, parentPath path = some parent ∧
      components path = components parent ++ [.normal s] := by
  let start := (lead (split '/' path)).length
  let body := (split '/' path).drop start
  have hbody : components path =
      lead (split '/' path) ++ (trimPieces body).filterMap Component.ofPiece := by
    rw [filterMap_trimPieces]
    exact components_eq_body path
  have hne : trimPieces body ≠ [] := by
    intro hnil
    rw [hbody, hnil, List.filterMap_nil, List.append_nil] at h
    exact not_mem_lead (List.mem_of_getLast? h)
  obtain ⟨init, last, c, htrim, hc⟩ := trimPieces_eq hne
  have hpath : components path =
      lead (split '/' path) ++ init.filterMap Component.ofPiece ++ [c] := by
    rw [hbody, htrim, List.filterMap_append, List.append_assoc]
    simp [hc]
  have hnormal : c = .normal s := by
    rw [hpath, List.getLast?_concat] at h
    exact Option.some.inj h
  refine ⟨ofPieces ((split '/' path).take start ++ trimPieces (trimPieces body).dropLast), ?_, ?_⟩
  · rw [parentPath, h]
  · have hinit : trimPieces init <+: body :=
      (List.rdropWhile_prefix _ _).trans
        ((htrim ▸ List.prefix_append init [last]).trans (List.rdropWhile_prefix _ body))
    rw [htrim, List.dropLast_concat, components_cut (fun p hp => notMem_of_mem_split hp) hinit,
      hpath, hnormal]

theorem IsFileName.components_withFileName {file file' : String} (h : IsFileName file)
    (h' : IsFileName file') (dir : Path) :
    components (withFileName (joinPath dir file) file') = components dir ++ [.normal file'] := by
  have hlast : (components (joinPath dir file)).getLast? = some (.normal file) := by
    rw [h.components_joinPath, List.getLast?_concat]
  obtain ⟨parent, hparent, hcomponents⟩ := components_parentPath hlast
  have hfile : (fileName (joinPath dir file)).isSome = true := by rw [fileName, hlast]; rfl
  rw [withFileName, if_pos hfile, hparent, Option.getD_some, h'.components_joinPath]
  rw [h.components_joinPath] at hcomponents
  rw [List.append_cancel_right hcomponents]

theorem IsFileName.fileName_joinPath {file : String} (h : IsFileName file) (dir : Path) :
    fileName (joinPath dir file) = some file := by
  rw [fileName, h.components_joinPath, List.getLast?_concat]

end AgentBus.Lib
