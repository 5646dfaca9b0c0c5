/-
  What a recursive comparison that returns has looked at: every path of either tree is accounted
  for by one entry, which is its own or that of a directory above it which the two sides do not
  share, and every directory that they share was listed on both sides.

  Paths are lists of names here, so that a name with a separator in it is still one name.
-/
import WinCommander.Compare.RecursiveFolderComparison

namespace WinCommander.Compare

open Library List Function

/-- The paths of the tree that a lister describes, and which of them are directories. -/
inductive Node (lister : RecursiveFolderCompareLister) : List Bytes → Bool → Prop where
  | root : Node lister [] true
  | child {names : List Bytes} {items : List FolderCompareItem} {item : FolderCompareItem}
      (hdirectory : Node lister names true) (hitems : lister (pathOf names) = some items)
      (hitem : item ∈ items) : Node lister (names ++ [item.name]) item.isDirectory

/-- What is said of a directory that is reported once, whole. -/
def Whole (status : FolderCompareStatus) : Prop :=
  status = .leftOnly ∨ status = .rightOnly ∨ status = .conflict

/-- The entry accounts for the path. -/
def Covers (report : List Bytes × RecursiveFolderCompareEntry) (names : List Bytes) : Prop :=
  report.1 = names ∨ report.1 <+: names ∧ Whole report.2.status

/-- Strictly below. -/
def Below (names other : List Bytes) : Prop := names <+: other ∧ names ≠ other

structure Accounted (left right : RecursiveFolderCompareLister) (options : FolderCompareOptions)
    (reports : Reports) : Prop where
  paths : ∀ report ∈ reports, report.2.relativePath = pathOf report.1 ∧
    report.2.depth + 1 = report.1.length
  distinct : (reports.map (·.1)).Nodup
  known : ∀ report ∈ reports, ∃ kind, Node left report.1 kind ∨ Node right report.1 kind
  covered : ∀ names kind, names ≠ [] → Node left names kind ∨ Node right names kind →
    ∃! report, report ∈ reports ∧ Covers report names
  directories : ∀ report ∈ reports, report.2.isDirectory = true → ¬Whole report.2.status →
    (report.2.status = .same ↔ TreesEqual left right options (pathOf report.1)) ∧
    (report.2.status = .same ↔ ∀ other ∈ reports, Below report.1 other.1 → other.2.status = .same)
  listed : ∀ names, Node left names true → Node right names true →
    (∃ items, left (pathOf names) = some items ∧ Listing items) ∧
      ∃ items, right (pathOf names) = some items ∧ Listing items

/-! ## Nodes -/

variable {name : Bytes}

/-- The first step from a directory towards a path below it. -/
theorem node_step (h : Node lister (names ++ name :: suffix) kind) :
    ∃ items item, lister (pathOf names) = some items ∧ item ∈ items ∧ item.name = name ∧
      (suffix = [] → kind = item.isDirectory) ∧ (suffix ≠ [] → item.isDirectory) := by
  induction suffix using List.reverseRecOn generalizing kind with
  | nil =>
    generalize hnames : names ++ [name] = path at h
    cases h with
    | root => simp at hnames
    | @child names' items item hdirectory hitems hitem =>
      obtain ⟨rfl, hname⟩ := append_inj' hnames rfl
      cases hname
      exact ⟨items, item, hitems, hitem, rfl, fun _ => rfl, fun h => absurd rfl h⟩
  | append_singleton suffix last ih =>
    have hparent : Node lister (names ++ name :: suffix) true := by
      generalize hnames : names ++ name :: (suffix ++ [last]) = path at h
      cases h with
      | root => simp at hnames
      | @child names' items item hdirectory hitems hitem =>
        rw [← cons_append, ← append_assoc] at hnames
        obtain ⟨rfl, -⟩ := append_inj' hnames rfl
        exact hdirectory
    obtain ⟨items, item, hitems, hitem, hname, hkind, hdirectory⟩ := ih hparent
    refine ⟨items, item, hitems, hitem, hname, fun h => by simp at h, fun _ => ?_⟩
    by_cases hsuffix : suffix = []
    · exact (hkind hsuffix).symm
    · exact hdirectory hsuffix

/-! ## The reports of a level -/

/-- The report of one name, and those from below it. -/
def block (names : List Bytes) (inner : Bytes → Reports) (entry : FolderCompareEntry) : Reports :=
  if descends entry then
    (names ++ [entry.name],
      { rowOf (pathOf names) names.length entry with status := verdict (inner entry.name) }) ::
        inner entry.name
  else [(names ++ [entry.name], rowOf (pathOf names) names.length entry)]

variable {names : List Bytes} {reports : Reports} {levels : Nat} {walk : Walk}
  {entry : FolderCompareEntry} {inner : Bytes → Reports}
  {report : List Bytes × RecursiveFolderCompareEntry} {left right : List FolderCompareItem}

theorem rows_blocks (h : Rows below names rows reports) (hrows : (rows.map (·.name)).Nodup) :
    ∃ inner : Bytes → Reports,
      (∀ entry ∈ rows, descends entry → below (names ++ [entry.name]) (inner entry.name)) ∧
        reports = rows.flatMap (block names inner) := by
  induction h with
  | nil => exact ⟨fun _ => [], fun _ h => absurd h not_mem_nil, rfl⟩
  | @leaf entry rest reports hleaf hrest ih =>
    rw [map_cons, nodup_cons] at hrows
    obtain ⟨inner, hinner, hreports⟩ := ih hrows.2
    refine ⟨inner, forall_mem_cons.mpr ⟨fun h => ?_, hinner⟩, ?_⟩
    · rw [hleaf] at h
      cases h
    · rw [flatMap_cons, ← hreports]
      unfold block
      rw [hleaf]
      rfl
  | @directory entry rest inner reports hdescends hinner hrest ih =>
    rw [map_cons, nodup_cons] at hrows
    obtain ⟨others, hothers, hreports⟩ := ih hrows.2
    have hne : ∀ other ∈ rest, other.name ≠ entry.name := by
      intro other hother heq
      exact hrows.1 (heq ▸ mem_map_of_mem hother)
    have hself : update others entry.name inner entry.name = inner :=
      update_self _ _ _
    have hrest : ∀ other ∈ rest, update others entry.name inner other.name =
        others other.name := fun other hother => update_of_ne (hne other hother) _ _
    refine ⟨update others entry.name inner,
      forall_mem_cons.mpr ⟨fun _ => ?_, fun other hother h => ?_⟩, ?_⟩
    · rw [hself]
      exact hinner
    · rw [hrest other hother]
      exact hothers other hother h
    · have hblocks : rest.flatMap (block names (update others entry.name inner)) = reports := by
        rw [hreports]
        refine flatMap_congr fun other hother => ?_
        unfold block
        rw [hrest other hother]
      rw [flatMap_cons, hblocks]
      unfold block
      rw [hdescends, hself]
      rfl

/-- A level that was compared, name by name. -/
theorem level_blocks (h : Level walk (levels + 1) names reports) :
    ∃ left right, walk.left (pathOf names) = some left ∧ walk.right (pathOf names) = some right ∧
      Listing left ∧ Listing right ∧ ∃ inner : Bytes → Reports,
        (∀ name ∈ unionNames left right, descends (entryFor walk.options left right name) →
          Level walk levels (names ++ [name]) (inner name)) ∧
        reports = (unionNames left right).flatMap fun name =>
          block names inner (entryFor walk.options left right name) := by
  obtain ⟨left, right, comparison, hleft, hright, hcomparison, hrows⟩ := h
  obtain ⟨-, hlisting, hlisting', hentries⟩ := compareFolders_ok_iff.mp hcomparison
  rw [hentries] at hrows
  have hnodup : (((unionNames left right).map (entryFor walk.options left right)).map (·.name)).Nodup := by
    rw [map_map]
    have hid : ((·.name) ∘ entryFor walk.options left right) = id := rfl
    rw [hid, map_id]
    exact nodup_unionNames hlisting hlisting'
  obtain ⟨inner, hinner, hreports⟩ := rows_blocks hrows hnodup
  refine ⟨left, right, hleft, hright, hlisting, hlisting', inner, fun name hname hdescends => ?_, ?_⟩
  · exact hinner _ (mem_map_of_mem hname) hdescends
  · rw [hreports, flatMap_map]

theorem mem_block (h : report ∈ block names inner entry) :
    report.1 = names ++ [entry.name] ∨ descends entry ∧ report ∈ inner entry.name := by
  unfold block at h
  split_ifs at h with hdescends
  · obtain rfl | h := mem_cons.mp h
    · exact .inl rfl
    · exact .inr ⟨hdescends, h⟩
  · rw [mem_singleton.mp h]
    exact .inl rfl

theorem block_head (names : List Bytes) (inner : Bytes → Reports) (entry : FolderCompareEntry) :
    ∃ row, (names ++ [entry.name], row) ∈ block names inner entry ∧
      (¬descends entry → row.status = entry.status) := by
  unfold block
  split_ifs with hdescends
  · exact ⟨_, mem_cons_self, fun h => absurd hdescends h⟩
  · exact ⟨_, mem_singleton_self _, fun _ => rfl⟩

theorem block_inner (hdescends : descends entry) (h : report ∈ inner entry.name) :
    report ∈ block names inner entry := by
  unfold block
  rw [if_pos hdescends]
  exact mem_cons_of_mem _ h

theorem level_below (h : Level walk levels names reports) :
    ∀ report ∈ reports, Below names report.1 := by
  induction levels generalizing names reports with
  | zero => exact absurd h id
  | succ levels ih =>
    obtain ⟨left, right, -, -, -, -, inner, hinner, rfl⟩ := level_blocks h
    intro report hreport
    obtain ⟨name, hname, hreport⟩ := mem_flatMap.mp hreport
    have hpart : names ++ [name] <+: report.1 := by
      obtain hhead | ⟨hdescends, hreport⟩ := mem_block hreport
      · rw [hhead]
        exact prefix_refl _
      · exact (ih (hinner name hname hdescends) report hreport).1
    have hlength := hpart.length_le
    refine ⟨(prefix_append names [name]).trans hpart, fun heq => ?_⟩
    rw [← heq, length_append, length_singleton] at hlength
    omega

/-- The block that a report stands in is the one of the first name below the directory. -/
theorem block_part
    (hinner : descends entry → Level walk levels (names ++ [entry.name]) (inner entry.name))
    (h : report ∈ block names inner entry) : names ++ [entry.name] <+: report.1 := by
  obtain hhead | ⟨hdescends, hreport⟩ := mem_block h
  · exact hhead ▸ prefix_refl _
  · exact (level_below (hinner hdescends) report hreport).1

theorem part_unique (h : names ++ [name] <+: path) (h' : names ++ [other] <+: path) :
    name = other := by
  have hle : (names ++ [name]).length ≤ (names ++ [other]).length := by simp
  have heq := (prefix_of_prefix_length_le h h' hle).eq_of_length (by simp)
  exact singleton_inj.mp (append_cancel_left heq)

theorem level_distinct (h : Level walk levels names reports) : (reports.map (·.1)).Nodup := by
  induction levels generalizing names reports with
  | zero => exact absurd h id
  | succ levels ih =>
    obtain ⟨left, right, -, -, hleft, hright, inner, hinner, rfl⟩ := level_blocks h
    rw [map_flatMap, nodup_flatMap]
    refine ⟨fun name hname => ?_, (nodup_unionNames hleft hright).imp_of_mem ?_⟩
    · unfold block
      split
      next hdescends =>
        rw [map_cons, nodup_cons]
        refine ⟨fun hmem => ?_, ih (hinner name hname hdescends)⟩
        obtain ⟨report, hreport, heq⟩ := mem_map.mp hmem
        exact (level_below (hinner name hname hdescends) report hreport).2 heq.symm
      next => exact nodup_singleton _
    · intro name other hname hother hne path hpath hpath'
      obtain ⟨report, hreport, rfl⟩ := mem_map.mp hpath
      obtain ⟨report', hreport', heq⟩ := mem_map.mp hpath'
      have hpart := block_part (hinner name hname) hreport
      have hpart' := block_part (hinner other hother) hreport'
      rw [heq] at hpart'
      exact hne (part_unique hpart hpart')

theorem level_paths (h : Level walk levels names reports) : ∀ report ∈ reports,
      report.2.relativePath = pathOf report.1 ∧ report.2.depth + 1 = report.1.length := by
  induction levels generalizing names reports with
  | zero => exact absurd h id
  | succ levels ih =>
    obtain ⟨left, right, -, -, -, -, inner, hinner, rfl⟩ := level_blocks h
    intro report hreport
    obtain ⟨name, hname, hreport⟩ := mem_flatMap.mp hreport
    have hrow : (rowOf (pathOf names) names.length
        (entryFor walk.options left right name)).relativePath = pathOf (names ++ [name]) ∧
        names.length + 1 = (names ++ [name]).length :=
      ⟨(pathOf_append names name).symm, by simp⟩
    unfold block at hreport
    split at hreport
    next hdescends =>
      obtain rfl | hreport := mem_cons.mp hreport
      · exact hrow
      · exact ih (hinner name hname hdescends) report hreport
    next =>
      rw [mem_singleton.mp hreport]
      exact hrow

/-! ## The entries of directories -/

/-- A directory of one side that the other does not share is reported whole. -/
theorem whole_of_directory (hitem : itemOf left name = some item ∨ itemOf right name = some item)
    (hdirectory : item.isDirectory) (hleaf : ¬descends (entryFor options left right name)) :
    Whole (entryFor options left right name).status := by
  rw [descends_entryFor_iff] at hleaf
  unfold Whole entryFor
  cases hleft : itemOf left name with
  | none =>
    cases hright : itemOf right name with
    | none => simp [hleft, hright] at hitem
    | some right => exact .inr (.inl rfl)
  | some left =>
    cases hright : itemOf right name with
    | none => exact .inl rfl
    | some right =>
      have hkinds : left.isDirectory ≠ right.isDirectory := by grind
      unfold judged matchedEntry
      dsimp only
      rw [if_pos hkinds]
      exact .inr (.inr rfl)

theorem descends_of_directory (hdirectory : (entryFor options left right name).isDirectory)
    (hwhole : ¬Whole (entryFor options left right name).status) :
    descends (entryFor options left right name) := by
  unfold descends
  rw [hdirectory, Bool.true_and, beq_iff_eq]
  unfold entryFor at hdirectory hwhole ⊢
  unfold Whole at hwhole
  cases hleft : itemOf left name with
  | none =>
    rw [hleft] at hdirectory hwhole
    cases hright : itemOf right name with
    | none => rfl
    | some right =>
      rw [hright] at hwhole
      exact absurd (.inr (.inl rfl)) hwhole
  | some left =>
    rw [hleft] at hdirectory hwhole
    cases hright : itemOf right name with
    | none =>
      rw [hright] at hwhole
      exact absurd (.inl rfl) hwhole
    | some right =>
      unfold judged matchedEntry at hdirectory hwhole ⊢
      grind

theorem not_whole_verdict (reports : Reports) : ¬Whole (verdict reports) := by
  unfold Whole verdict
  split <;> simp

/-- Nothing is reported below what is reported whole. -/
theorem level_whole (h : Level walk levels names reports) :
    ∀ report ∈ reports, Whole report.2.status → ∀ other ∈ reports, ¬Below report.1 other.1 := by
  induction levels generalizing names reports with
  | zero => exact absurd h id
  | succ levels ih =>
    obtain ⟨left, right, -, -, -, -, inner, hinner, rfl⟩ := level_blocks h
    intro report hreport hwhole other hother hbelow
    obtain ⟨name, hname, hreport⟩ := mem_flatMap.mp hreport
    obtain ⟨name', hname', hother⟩ := mem_flatMap.mp hother
    have hpart := block_part (hinner name hname) hreport
    have hpart' := block_part (hinner name' hname') hother
    cases part_unique (hpart.trans hbelow.1) hpart'
    unfold block at hreport hother
    split at hreport
    next hdescends =>
      rw [if_pos hdescends] at hother
      obtain rfl | hreport := mem_cons.mp hreport
      · exact not_whole_verdict _ hwhole
      · have hdeeper := level_below (hinner name hname hdescends) report hreport
        obtain rfl | hother := mem_cons.mp hother
        · exact hdeeper.2 (hdeeper.1.eq_of_length_le hbelow.1.length_le)
        · exact ih (hinner name hname hdescends) report hreport hwhole other hother hbelow
    next hleaf =>
      rw [if_neg hleaf] at hother
      rw [mem_singleton.mp hreport, mem_singleton.mp hother] at hbelow
      exact hbelow.2 rfl

theorem verdict_same_iff :
    verdict reports = .same ↔ ∀ report ∈ reports, report.2.status = .same := by
  unfold verdict
  simp

theorem level_directories (h : Level walk levels names reports) :
    ∀ report ∈ reports, report.2.isDirectory → ¬Whole report.2.status → (report.2.status = .same ↔
        TreesEqual walk.left walk.right walk.options (pathOf report.1)) ∧ (report.2.status = .same ↔
        ∀ other ∈ reports, Below report.1 other.1 → other.2.status = .same) := by
  induction levels generalizing names reports with
  | zero => exact absurd h id
  | succ levels ih =>
    obtain ⟨left, right, -, -, -, -, inner, hinner, rfl⟩ := level_blocks h
    intro report hreport hdirectory hwhole
    obtain ⟨name, hname, hreport⟩ := mem_flatMap.mp hreport
    have hpart := block_part (hinner name hname) hreport
    have hdescends : descends (entryFor walk.options left right name) := by
      by_contra hleaf
      unfold block at hreport
      rw [if_neg hleaf] at hreport
      rw [mem_singleton.mp hreport] at hdirectory hwhole
      exact hleaf (descends_of_directory hdirectory hwhole)
    have hlevel := hinner name hname hdescends
    have hblock : block names inner (entryFor walk.options left right name) = (names ++ [name],
          { rowOf (pathOf names) names.length (entryFor walk.options left right name) with
            status := verdict (inner name) }) :: inner name := if_pos hdescends
    rw [hblock] at hreport
    -- What is reported strictly below the directory is reported by its own level.
    have hothers : ∀ other ∈ (unionNames left right).flatMap (fun name =>
        block names inner (entryFor walk.options left right name)),
        Below report.1 other.1 → other ∈ inner name := by
      intro other hother hbelow
      obtain ⟨name', hname', hother⟩ := mem_flatMap.mp hother
      cases part_unique (hpart.trans hbelow.1) (block_part (hinner name' hname') hother)
      rw [hblock] at hother
      obtain rfl | hother := mem_cons.mp hother
      · exact absurd (hbelow.1.eq_of_length_le hpart.length_le) hbelow.2
      · exact hother
    have hmem : ∀ other ∈ inner name, other ∈ (unionNames left right).flatMap (fun name =>
        block names inner (entryFor walk.options left right name)) := by
      intro other hother
      exact mem_flatMap.mpr ⟨name, hname, block_inner hdescends hother⟩
    obtain rfl | hreport := mem_cons.mp hreport
    · refine ⟨level_verdict walk hlevel, ?_⟩
      rw [verdict_same_iff]
      exact ⟨fun hall other hother hbelow => hall other (hothers other hother hbelow),
        fun hall other hother => hall other (hmem other hother) (level_below hlevel other hother)⟩
    · obtain ⟨hequal, hsame⟩ := ih hlevel report hreport hdirectory hwhole
      refine ⟨hequal, hsame.trans ?_⟩
      exact ⟨fun hall other hother hbelow => hall other (hothers other hother hbelow) hbelow,
        fun hall other hother hbelow => hall other (hmem other hother) hbelow⟩

/-! ## The paths of the trees -/

theorem Node.of_descends (hleft : Node walk.left names true) (hright : Node walk.right names true)
    (hitems : walk.left (pathOf names) = some left)
    (hitems' : walk.right (pathOf names) = some right)
    (h : descends (entryFor walk.options left right name)) :
    Node walk.left (names ++ [name]) true ∧ Node walk.right (names ++ [name]) true := by
  obtain ⟨item, item', hitem, hitem', hdirectory, hdirectory'⟩ := descends_entryFor_iff.mp h
  have hchild := hleft.child hitems (itemOf_mem hitem)
  have hchild' := hright.child hitems' (itemOf_mem hitem')
  rw [itemOf_name hitem, hdirectory] at hchild
  rw [itemOf_name hitem', hdirectory'] at hchild'
  exact ⟨hchild, hchild'⟩

theorem level_known (h : Level walk levels names reports) (hleft : Node walk.left names true)
    (hright : Node walk.right names true) : ∀ report ∈ reports, ∃ kind,
      Node walk.left report.1 kind ∨ Node walk.right report.1 kind := by
  induction levels generalizing names reports with
  | zero => exact absurd h id
  | succ levels ih =>
    obtain ⟨left, right, hitems, hitems', -, -, inner, hinner, rfl⟩ := level_blocks h
    intro report hreport
    obtain ⟨name, hname, hreport⟩ := mem_flatMap.mp hreport
    obtain hhead | ⟨hdescends, hreport⟩ := mem_block hreport
    · rw [hhead, entryFor_name]
      obtain hitem | hitem := mem_unionNames.mp hname
      · obtain ⟨item, hitem⟩ := Option.ne_none_iff_exists'.mp hitem
        have hchild := hleft.child hitems (itemOf_mem hitem)
        rw [itemOf_name hitem] at hchild
        exact ⟨item.isDirectory, .inl hchild⟩
      · obtain ⟨item, hitem⟩ := Option.ne_none_iff_exists'.mp hitem
        have hchild := hright.child hitems' (itemOf_mem hitem)
        rw [itemOf_name hitem] at hchild
        exact ⟨item.isDirectory, .inr hchild⟩
    · obtain ⟨hchild, hchild'⟩ := Node.of_descends hleft hright hitems hitems' hdescends
      exact ih (hinner name hname hdescends) hchild hchild' report hreport

/-- The item at the first name of a path below a directory that both sides listed. -/
theorem step_item (hitems : walk.left (pathOf names) = some left)
    (hitems' : walk.right (pathOf names) = some right) (hleft : Listing left)
    (hright : Listing right)
    (h : Node walk.left (names ++ name :: suffix) kind ∨ Node walk.right (names ++ name :: suffix) kind) :
    ∃ item, (itemOf left name = some item ∨ itemOf right name = some item) ∧
      (suffix ≠ [] → item.isDirectory) := by
  obtain h | h := h
  · obtain ⟨items, item, hlisted, hitem, rfl, -, hdirectory⟩ := node_step h
    cases hitems.symm.trans hlisted
    exact ⟨item, .inl (hleft.itemOf hitem), hdirectory⟩
  · obtain ⟨items, item, hlisted, hitem, rfl, -, hdirectory⟩ := node_step h
    cases hitems'.symm.trans hlisted
    exact ⟨item, .inr (hright.itemOf hitem), hdirectory⟩

theorem level_covered (h : Level walk levels names reports) (hsuffix : suffix ≠ [])
    (hnode : Node walk.left (names ++ suffix) kind ∨ Node walk.right (names ++ suffix) kind) :
    ∃ report ∈ reports, Covers report (names ++ suffix) := by
  induction levels generalizing names reports suffix with
  | zero => exact absurd h id
  | succ levels ih =>
    obtain ⟨left, right, hitems, hitems', hleft, hright, inner, hinner, rfl⟩ := level_blocks h
    obtain - | ⟨name, rest⟩ := suffix
    · exact absurd rfl hsuffix
    obtain ⟨item, hitem, hdirectory⟩ := step_item hitems hitems' hleft hright hnode
    have hname : name ∈ unionNames left right := by
      rw [mem_unionNames]
      rcases hitem with hitem | hitem <;> simp [hitem]
    have happend : names ++ name :: rest = names ++ [name] ++ rest := by simp
    obtain ⟨row, hrow, hstatus⟩ :=
      block_head names inner (entryFor walk.options left right name)
    by_cases hrest : rest = []
    · exact ⟨_, mem_flatMap.mpr ⟨name, hname, hrow⟩, .inl (by rw [hrest]; rfl)⟩
    · rw [happend] at hnode ⊢
      by_cases hdescends : descends (entryFor walk.options left right name)
      · obtain ⟨report, hreport, hcovers⟩ := ih (hinner name hname hdescends) hrest hnode
        exact ⟨report, mem_flatMap.mpr ⟨name, hname, block_inner hdescends hreport⟩, hcovers⟩
      · refine ⟨_, mem_flatMap.mpr ⟨name, hname, hrow⟩, .inr ⟨prefix_append _ _, ?_⟩⟩
        rw [hstatus hdescends]
        exact whole_of_directory hitem (hdirectory hrest) hdescends

theorem level_covered_once (h : Level walk levels names reports) (hreport : report ∈ reports)
    (hother : other ∈ reports) (hcovers : Covers report path) (hcovers' : Covers other path) :
    report = other := by
  have hpart : ∀ {report}, Covers report path → report.1 <+: path := by
    intro report hcovers
    obtain rfl | hcovers := hcovers
    · exact prefix_refl _
    · exact hcovers.1
  -- Of two different reports one is below the other, which is therefore whole.
  have hstrict : ∀ {first second}, first ∈ reports → second ∈ reports → Covers first path →
      Covers second path → first.1 <+: second.1 → first.1 = second.1 := by
    intro first second hfirst hsecond hcovers hcovers' hprior
    by_contra hne
    have hwhole : Whole first.2.status := by
      obtain rfl | hcovers := hcovers
      · exact absurd (hprior.eq_of_length_le (hpart hcovers').length_le) hne
      · exact hcovers.2
    exact level_whole h first hfirst hwhole second hsecond ⟨hprior, hne⟩
  have heq : report.1 = other.1 := by
    obtain hprior | hprior := prefix_or_prefix_of_prefix (hpart hcovers) (hpart hcovers')
    · exact hstrict hreport hother hcovers hcovers' hprior
    · exact (hstrict hother hreport hcovers' hcovers hprior).symm
  exact inj_on_of_nodup_map (level_distinct h) hreport hother heq

/-- A directory of both sides below one that was compared has been listed on both. -/
theorem level_listed (h : Level walk levels names reports)
    (hleft : Node walk.left (names ++ suffix) true)
    (hright : Node walk.right (names ++ suffix) true) :
    (∃ items, walk.left (pathOf (names ++ suffix)) = some items ∧ Listing items) ∧
      ∃ items, walk.right (pathOf (names ++ suffix)) = some items ∧ Listing items := by
  induction levels generalizing names reports suffix with
  | zero => exact absurd h id
  | succ levels ih =>
    obtain ⟨left, right, hitems, hitems', hlisting, hlisting', inner, hinner, -⟩ := level_blocks h
    obtain - | ⟨name, rest⟩ := suffix
    · rw [append_nil]
      exact ⟨⟨left, hitems, hlisting⟩, right, hitems', hlisting'⟩
    have hdirectory : ∀ {lister items}, lister (pathOf names) = some items → Listing items →
        Node lister (names ++ name :: rest) true →
        ∃ item, itemOf items name = some item ∧ item.isDirectory := by
      intro lister items hitems hlisting hnode
      obtain ⟨items', item, hlisted, hitem, rfl, hlast, hdirectory⟩ := node_step hnode
      cases hitems.symm.trans hlisted
      refine ⟨item, hlisting.itemOf hitem, ?_⟩
      by_cases hrest : rest = []
      · exact (hlast hrest).symm
      · exact hdirectory hrest
    obtain ⟨item, hitem, hkind⟩ := hdirectory hitems hlisting hleft
    obtain ⟨item', hitem', hkind'⟩ := hdirectory hitems' hlisting' hright
    have hdescends : descends (entryFor walk.options left right name) :=
      descends_entryFor_iff.mpr ⟨item, item', hitem, hitem', hkind, hkind'⟩
    have hname : name ∈ unionNames left right := mem_unionNames.mpr (.inl (by simp [hitem]))
    have happend : names ++ name :: rest = names ++ [name] ++ rest := by simp
    rw [happend] at hleft hright ⊢
    exact ih (hinner name hname hdescends) hleft hright

/-! ## The comparison -/

theorem level_accounted (h : Level walk levels [] reports) :
    Accounted walk.left walk.right walk.options reports where
  paths := level_paths h
  distinct := level_distinct h
  known := level_known h .root .root
  covered names kind hnames hnode := by
    obtain ⟨report, hreport, hcovers⟩ := level_covered h hnames hnode
    exact ⟨report, ⟨hreport, hcovers⟩, fun other hother =>
      level_covered_once h hother.1 hreport hother.2 hcovers⟩
  directories := level_directories h
  listed _ hleft hright := level_listed h hleft hright

/-- A recursive comparison that returns is exact, and it comes to an end whatever the listers
    describe. -/
theorem compareFoldersRecursively_exact (left right : RecursiveFolderCompareLister)
    (options : FolderCompareOptions) (limits : RecursiveFolderCompareLimits)
    (isCancelled : Nat → Bool) :
    (∀ result, compareFoldersRecursively left right options limits isCancelled = .ok result →
      (result.identical = true ↔ TreesEqual left right options []) ∧
        ∃ reports, result.entries = reports.map (·.2) ∧ Accounted left right options reports) ∧
      (Walk.mk left right options limits isCancelled).start.2.descents ≤ limits.maximumEntries + 1 := by
  refine ⟨fun result h => ?_, ?_⟩
  · unfold compareFoldersRecursively at h
    generalize hstart : (Walk.mk left right options limits isCancelled).start = descent at h
    obtain ⟨outcome, state⟩ := descent
    cases outcome with
    | error failure => cases h
    | ok status =>
      cases h
      have hroot : (Walk.mk left right options limits isCancelled).descend (limits.maximumDepth + 1)
          (pathOf []) ([] : List Bytes).length {} = (.ok status, state) := hstart
      obtain ⟨reports, hlevel, hentries, -⟩ := descend_reports _ hroot
      have hentries : state.entries = reports.map (·.2) := hentries
      refine ⟨Iff.trans ?_ (level_verdict _ hlevel), reports, hentries, level_accounted hlevel⟩
      rw [verdict_same_iff]
      unfold RecursiveFolderComparison.identical
      rw [hentries]
      simp
  · have hbudget := start_withinBudget (Walk.mk left right options limits isCancelled)
    exact Nat.le_trans hbudget.descents (Nat.succ_le_succ hbudget.entries)

end WinCommander.Compare
