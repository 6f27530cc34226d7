import Eventide.Model.Projects
import Eventide.Verification.Store.Log

/-! # Projects keep their identity

The three tables are linked whatever a call finds: bindings name rows that are there, a project's
source is bound to it as the source, and no Git directory has two projects. -/

namespace Eventide

open Outcome RuntimeStore

namespace RuntimeStore

/-- The tables of projects, with Workspaces that may still lack their binding. -/
structure Linked (s : RuntimeStore) : Prop where
  bindingIds : (s.workspaceProjects.map (·.workspaceId)).Nodup
  projectIds : (s.projects.map (·.projectId)).Nodup
  commons : s.projects.Pairwise fun p q =>
    p.gitCommonDir.isSome = true → p.gitCommonDir ≠ q.gitCommonDir
  workspace : ∀ b ∈ s.workspaceProjects, ∃ w ∈ s.workspaces, w.workspaceId = b.workspaceId
  project : ∀ b ∈ s.workspaceProjects, ∃ p ∈ s.projects, p.projectId = b.projectId
  kind : ∀ p ∈ s.projects, ∀ b ∈ s.workspaceProjects, b.projectId = p.projectId →
    (b.kind = .source ↔ b.workspaceId = p.sourceWorkspaceId)
  source : ∀ p ∈ s.projects, ∃ b ∈ s.workspaceProjects,
    b.projectId = p.projectId ∧ b.workspaceId = p.sourceWorkspaceId

/-- The Workspace has a binding. -/
def IsBound (s : RuntimeStore) (workspaceId : String) : Prop :=
  ∃ b ∈ s.workspaceProjects, b.workspaceId = workspaceId

/-- What binding one Workspace may do to the tables. -/
structure Grows (s t : RuntimeStore) : Prop where
  workspaces : s.workspaces <+: t.workspaces
  bindings : s.workspaceProjects <+: t.workspaceProjects
  /-- A Workspace that is new here is a source, and bound. -/
  fresh : ∀ w ∈ t.workspaces, w ∈ s.workspaces ∨ t.IsBound w.workspaceId

theorem Grows.refl (s : RuntimeStore) : s.Grows s :=
  ⟨List.prefix_refl _, List.prefix_refl _, fun _ h => .inl h⟩

theorem IsBound.mono {s t : RuntimeStore} (h : s.workspaceProjects <+: t.workspaceProjects)
    {workspaceId : String} (hb : s.IsBound workspaceId) : t.IsBound workspaceId := by
  obtain ⟨b, hb, hid⟩ := hb
  exact ⟨b, h.subset hb, hid⟩

theorem Grows.trans {s t u : RuntimeStore} (h : s.Grows t) (k : t.Grows u) : s.Grows u := by
  refine ⟨h.workspaces.trans k.workspaces, h.bindings.trans k.bindings, fun w hw => ?_⟩
  rcases k.fresh w hw with hw | hw
  · exact (h.fresh w hw).imp_right fun hb => hb.mono k.bindings
  · exact .inr hw

/-! ## The rows of a source -/

theorem insertWorkspace_eq_ok {s t : RuntimeStore} {row : Workspace} :
    s.insertWorkspace row = .ok t ↔ (¬ ∃ w ∈ s.workspaces, w.workspaceId = row.workspaceId) ∧
      (¬ ∃ w ∈ s.workspaces, w.path = row.path) ∧
      t = { s with workspaces := s.workspaces ++ [row] } := by
  simp only [insertWorkspace, bind_eq_ok, raiseIf_eq_ok, pure_eq_ok, Except.ok.injEq]
  constructor
  · rintro ⟨-, hid, -, hpath, heq⟩
    exact ⟨hid, hpath, heq.symm⟩
  · rintro ⟨hid, hpath, heq⟩
    exact ⟨(), hid, (), hpath, heq.symm⟩

/-- Inserting a Workspace leaves the tables linked. -/
theorem Linked.insertWorkspace {s t : RuntimeStore} {row : Workspace} (h : s.Linked)
    (hi : s.insertWorkspace row = .ok t) : t.Linked := by
  obtain ⟨-, -, rfl⟩ := insertWorkspace_eq_ok.mp hi
  refine { h with workspace := fun b hb => ?_ }
  obtain ⟨w, hw, hid⟩ := h.workspace b hb
  exact ⟨w, List.mem_append_left _ hw, hid⟩

/-- Two bindings of one Workspace are the same. -/
theorem Linked.binding_ext {s : RuntimeStore} (h : s.Linked) {b b' : ProjectBinding}
    (hb : b ∈ s.workspaceProjects) (hb' : b' ∈ s.workspaceProjects)
    (heq : b.workspaceId = b'.workspaceId) : b = b' :=
  List.inj_on_of_nodup_map h.bindingIds hb hb' heq

theorem Linked.project_ext {s : RuntimeStore} (h : s.Linked) {p p' : Project}
    (hp : p ∈ s.projects) (hp' : p' ∈ s.projects) (heq : p.projectId = p'.projectId) : p = p' :=
  List.inj_on_of_nodup_map h.projectIds hp hp' heq

/-- A binding for a Workspace without one, of the kind that its project asks for. -/
theorem Linked.bind {s : RuntimeStore} (h : s.Linked) {b : ProjectBinding} {p : Project}
    (hfresh : ¬ s.IsBound b.workspaceId)
    (hw : ∃ w ∈ s.workspaces, w.workspaceId = b.workspaceId) (hp : p ∈ s.projects)
    (hid : p.projectId = b.projectId)
    (hkind : b.kind = .source ↔ b.workspaceId = p.sourceWorkspaceId) :
    Linked { s with workspaceProjects := s.workspaceProjects ++ [b] } where
  bindingIds := by
    rw [List.map_append, List.map_singleton]
    refine Sequence.nodup_concat.mpr ⟨fun hin => hfresh ?_, h.bindingIds⟩
    obtain ⟨other, hother, heq⟩ := List.mem_map.mp hin
    exact ⟨other, hother, heq⟩
  projectIds := h.projectIds
  commons := h.commons
  workspace := by
    intro other hother
    rcases List.mem_append.mp hother with hother | hother
    · exact h.workspace other hother
    · rwa [List.mem_singleton.mp hother]
  project := by
    intro other hother
    rcases List.mem_append.mp hother with hother | hother
    · exact h.project other hother
    · rw [List.mem_singleton.mp hother]
      exact ⟨p, hp, hid⟩
  kind := by
    intro q hq other hother heq
    rcases List.mem_append.mp hother with hother | hother
    · exact h.kind q hq other hother heq
    · obtain rfl := List.mem_singleton.mp hother
      obtain rfl := h.project_ext hp hq (hid.trans heq)
      exact hkind
  source := by
    intro q hq
    obtain ⟨other, hother, hsource⟩ := h.source q hq
    exact ⟨other, List.mem_append_left _ hother, hsource⟩

theorem insertProject_eq_ok {s t : RuntimeStore} {row : Project} :
    s.insertProject row = .ok t ↔ (∀ p ∈ s.projects, p.projectId ≠ row.projectId) ∧
      (∀ p ∈ s.projects, p.sourceWorkspaceId ≠ row.sourceWorkspaceId) ∧
      (row.gitCommonDir.isSome = true → ∀ p ∈ s.projects, p.gitCommonDir ≠ row.gitCommonDir) ∧
      t = { s with projects := s.projects ++ [row] } := by
  simp only [insertProject, bind_eq_ok, raiseIf_eq_ok, pure_eq_ok, Except.ok.injEq, not_exists,
    not_and]
  constructor
  · rintro ⟨-, hid, -, hsource, -, hcommon, heq⟩
    exact ⟨hid, hsource, hcommon, heq.symm⟩
  · rintro ⟨hid, hsource, hcommon, heq⟩
    exact ⟨(), hid, (), hsource, (), hcommon, heq.symm⟩

/-- A new project comes with the binding of its source. -/
theorem Linked.insertProject {s t : RuntimeStore} {p : Project} (h : s.Linked)
    (hi : s.insertProject p = .ok t) (hfresh : ¬ s.IsBound p.sourceWorkspaceId)
    (hw : ∃ w ∈ s.workspaces, w.workspaceId = p.sourceWorkspaceId) :
    Linked { t with workspaceProjects := t.workspaceProjects ++
      [{ workspaceId := p.sourceWorkspaceId, projectId := p.projectId, kind := .source }] } := by
  obtain ⟨hid, hsource, hcommon, rfl⟩ := insertProject_eq_ok.mp hi
  refine {
    bindingIds := ?_, projectIds := ?_, commons := ?_, workspace := fun b hb => ?_
    project := fun b hb => ?_, kind := fun q hq b hb heq => ?_, source := fun q hq => ?_ }
  · rw [List.map_append, List.map_singleton]
    refine Sequence.nodup_concat.mpr ⟨fun hin => hfresh ?_, h.bindingIds⟩
    obtain ⟨b, hb, heq⟩ := List.mem_map.mp hin
    exact ⟨b, hb, heq⟩
  · rw [List.map_append, List.map_singleton]
    refine Sequence.nodup_concat.mpr ⟨fun hin => ?_, h.projectIds⟩
    obtain ⟨q, hq, heq⟩ := List.mem_map.mp hin
    exact hid q hq heq
  · refine Sequence.pairwise_concat h.commons fun q hq hsome heq => ?_
    exact hcommon (heq ▸ hsome) q hq heq
  · rcases List.mem_append.mp hb with hb | hb
    · exact h.workspace b hb
    · rwa [List.mem_singleton.mp hb]
  · rcases List.mem_append.mp hb with hb | hb
    · obtain ⟨q, hq, heq⟩ := h.project b hb
      exact ⟨q, List.mem_append_left _ hq, heq⟩
    · rw [List.mem_singleton.mp hb]
      exact ⟨p, by simp, rfl⟩
  · rcases List.mem_append.mp hq with hq | hq
    · rcases List.mem_append.mp hb with hb | hb
      · exact h.kind q hq b hb heq
      · obtain rfl := List.mem_singleton.mp hb
        exact absurd heq.symm (hid q hq)
    · obtain rfl := List.mem_singleton.mp hq
      rcases List.mem_append.mp hb with hb | hb
      · obtain ⟨other, hother, heq'⟩ := h.project b hb
        exact absurd (heq'.trans heq) (hid other hother)
      · obtain rfl := List.mem_singleton.mp hb
        simp
  · rcases List.mem_append.mp hq with hq | hq
    · obtain ⟨b, hb, hsource'⟩ := h.source q hq
      exact ⟨b, List.mem_append_left _ hb, hsource'⟩
    · obtain rfl := List.mem_singleton.mp hq
      exact ⟨_, List.mem_append_right _ List.mem_cons_self, rfl, rfl⟩

/-- A project that learned its Git directory. -/
def withCommon (projectId : String) (common : Option String) (p : Project) : Project :=
  if p.projectId = projectId then { p with gitCommonDir := common } else p

@[simp] theorem withCommon_projectId (projectId : String) (common : Option String) (p : Project) :
    (withCommon projectId common p).projectId = p.projectId := by
  unfold withCommon
  split <;> rfl

@[simp] theorem withCommon_source (projectId : String) (common : Option String) (p : Project) :
    (withCommon projectId common p).sourceWorkspaceId = p.sourceWorkspaceId := by
  unfold withCommon
  split <;> rfl

/-- Learning the Git directory of a project changes no association. -/
theorem Linked.enrich {s : RuntimeStore} (h : s.Linked) {projectId : String}
    {common : Option String} (hfree : ∀ p ∈ s.projects, p.gitCommonDir ≠ common) :
    Linked { s with projects := s.projects.map (withCommon projectId common) } := by
  have hids : s.projects.Pairwise fun p q => p.projectId ≠ q.projectId :=
    List.pairwise_map.mp h.projectIds
  refine { h with
    projectIds := ?_, commons := ?_, project := fun b hb => ?_
    kind := fun q hq b hb heq => ?_, source := fun q hq => ?_ }
  · simpa [List.map_map, Function.comp_def] using h.projectIds
  · refine List.pairwise_map.mpr ((h.commons.and hids).imp_of_mem ?_)
    rintro p q hp hq ⟨hcommon, hne⟩
    unfold withCommon
    split
    · rename_i hpid
      rw [if_neg fun hqid => hne (hpid.trans hqid.symm)]
      exact fun _ heq => hfree q hq heq.symm
    · split
      · exact fun _ => hfree p hp
      · exact hcommon
  · obtain ⟨q, hq, heq⟩ := h.project b hb
    exact ⟨_, List.mem_map_of_mem hq, by simpa using heq⟩
  · obtain ⟨p, hp, rfl⟩ := List.mem_map.mp hq
    simpa using h.kind p hp b hb (by simpa using heq)
  · obtain ⟨p, hp, rfl⟩ := List.mem_map.mp hq
    simpa using h.source p hp

/-! ## Binding one Workspace -/

theorem sourceRow_spec {s t : RuntimeStore} {tick : Tick} {source : String} {common : Option String}
    {row : Workspace} (h : s.Linked) (hr : s.sourceRow tick source common = .ok (row, t)) :
    t.Linked ∧ row ∈ t.workspaces ∧ s.workspaces <+: t.workspaces ∧
      t.workspaceProjects = s.workspaceProjects ∧ ∀ w ∈ t.workspaces, w ∈ s.workspaces ∨ w = row := by
  unfold sourceRow at hr
  split at hr
  case h_1 found hfound =>
    cases hr
    exact ⟨h, List.mem_of_find?_eq_some hfound, List.prefix_refl _, rfl, fun _ hw => .inl hw⟩
  case h_2 =>
    obtain ⟨_, -, hr⟩ := bind_eq_ok.mp hr
    obtain ⟨t', hi, hr⟩ := bind_eq_ok.mp hr
    cases hr
    refine ⟨h.insertWorkspace hi, ?_⟩
    obtain ⟨-, -, rfl⟩ := insertWorkspace_eq_ok.mp hi
    refine ⟨by simp, List.prefix_append _ _, rfl, fun w hw => ?_⟩
    exact (List.mem_append.mp hw).imp_right List.mem_singleton.mp

/-- A project with the identity that a caller goes on with. -/
def HasProject (s : RuntimeStore) (project : Project) : Prop :=
  ∃ p ∈ s.projects, p.projectId = project.projectId ∧
    p.sourceWorkspaceId = project.sourceWorkspaceId

theorem sourceProject_spec {s t : RuntimeStore} {tick : Tick} {row : Workspace}
    {common : Option String} {project : Project} (h : s.Linked)
    (hrow : row ∈ s.workspaces)
    (hp : s.sourceProject tick row common = .ok (project, t)) :
    t.Linked ∧ t.workspaces = s.workspaces ∧ s.workspaceProjects <+: t.workspaceProjects ∧
      t.IsBound row.workspaceId ∧ t.HasProject project := by
  unfold sourceProject at hp
  dsimp only at hp
  split at hp
  case h_1 =>
    obtain ⟨_, -, hp⟩ := bind_eq_ok.mp hp
    obtain ⟨mid, hi, hp⟩ := bind_eq_ok.mp hp
    obtain ⟨_, hunbound, hp⟩ := bind_eq_ok.mp hp
    rw [raiseIf_eq_ok] at hunbound
    cases hp
    have hlog : mid.workspaces = s.workspaces ∧ mid.workspaceProjects = s.workspaceProjects := by
      obtain ⟨-, -, -, rfl⟩ := insertProject_eq_ok.mp hi
      exact ⟨rfl, rfl⟩
    have hfresh : ¬ s.IsBound row.workspaceId := by
      rw [IsBound, ← hlog.2]
      exact hunbound
    refine ⟨h.insertProject hi hfresh ⟨row, hrow, rfl⟩, hlog.1, ?_, ?_, ?_⟩
    · rw [hlog.2]
      exact List.prefix_append _ _
    · exact ⟨_, List.mem_append_right _ List.mem_cons_self, rfl⟩
    · obtain ⟨-, -, -, rfl⟩ := insertProject_eq_ok.mp hi
      exact ⟨_, List.mem_append_right _ List.mem_cons_self, rfl, rfl⟩
  case h_2 found hfound =>
    obtain ⟨b, hb, hproject⟩ := Option.bind_eq_some_iff.mp hfound
    have hbound : s.IsBound row.workspaceId :=
      ⟨b, List.mem_of_find?_eq_some hb, by simpa using List.find?_some hb⟩
    have hin := List.mem_of_find?_eq_some hproject
    split at hp
    · obtain ⟨_, hfree, hp⟩ := bind_eq_ok.mp hp
      rw [raiseIf_eq_ok] at hfree
      cases hp
      refine ⟨h.enrich fun p hp heq => hfree ⟨p, hp, heq⟩, rfl, List.prefix_refl _, hbound, ?_⟩
      exact ⟨_, List.mem_map_of_mem hin, by simp, by simp⟩
    · obtain ⟨_, -, hp⟩ := bind_eq_ok.mp hp
      cases hp
      exact ⟨h, rfl, List.prefix_refl _, hbound, _, hin, rfl, rfl⟩

theorem owningProject_spec {s t : RuntimeStore} {env : Env} {source : String}
    {common : Option String} {project : Project} (h : s.Linked)
    (hp : s.owningProject env source common = .ok (project, t)) :
    t.Linked ∧ s.Grows t ∧ t.HasProject project := by
  unfold owningProject at hp
  dsimp only at hp
  split at hp
  case h_1 found hfound =>
    cases hp
    refine ⟨h, .refl s, ?_⟩
    split at hfound
    · exact ⟨_, List.mem_of_find?_eq_some hfound, rfl, rfl⟩
    · cases hfound
  case h_2 =>
    obtain ⟨⟨row, mid⟩, hr, hp⟩ := bind_eq_ok.mp hp
    obtain ⟨hmid, hrow, hworkspaces, hbindings, hnew⟩ := sourceRow_spec h hr
    obtain ⟨ht, hsame, hprefix, hbound, hproject⟩ := sourceProject_spec hmid hrow hp
    refine ⟨ht, ⟨hsame ▸ hworkspaces, hbindings ▸ hprefix, fun w hw => ?_⟩, hproject⟩
    rw [hsame] at hw
    refine (hnew w hw).imp_right fun heq => ?_
    rw [heq]
    exact hbound

theorem insertBinding_spec {s : RuntimeStore} (h : s.Linked) {b : ProjectBinding} {p : Project}
    (hw : ∃ w ∈ s.workspaces, w.workspaceId = b.workspaceId) (hp : p ∈ s.projects)
    (hid : p.projectId = b.projectId)
    (hkind : b.kind = .source ↔ b.workspaceId = p.sourceWorkspaceId) :
    (s.insertBinding b).Linked ∧ s.Grows (s.insertBinding b) ∧
      (s.insertBinding b).IsBound b.workspaceId := by
  unfold insertBinding
  split
  case isTrue hbound => exact ⟨h, .refl s, hbound⟩
  case isFalse hfresh =>
    exact ⟨h.bind hfresh hw hp hid hkind,
      ⟨List.prefix_refl _, List.prefix_append _ _, fun _ hin => .inl hin⟩,
      b, List.mem_append_right _ List.mem_cons_self, rfl⟩

/-- `_bind_project` leaves the Workspace bound, and the tables linked. -/
theorem bindProject_spec {s t : RuntimeStore} {env : Env} {row : Workspace} {source : String}
    {common : Option String} (h : s.Linked) (hrow : row ∈ s.workspaces)
    (hb : s.bindProject env row source common = .ok t) :
    t.Linked ∧ s.Grows t ∧ t.IsBound row.workspaceId := by
  unfold bindProject at hb
  split at hb
  case isTrue hbound =>
    cases hb
    exact ⟨h, .refl s, hbound⟩
  case isFalse =>
    obtain ⟨⟨project, mid⟩, hp, hb⟩ := bind_eq_ok.mp hb
    obtain ⟨hmid, hgrows, p, hin, hid, hsource⟩ := owningProject_spec h hp
    cases hb
    have hkind : (if row.workspaceId = project.sourceWorkspaceId then BindingKind.source
        else .worktree) = .source ↔ row.workspaceId = p.sourceWorkspaceId := by
      rw [hsource]
      split
      · simp [*]
      · simp [*]
    obtain ⟨ht, hgrows', hbound⟩ := @insertBinding_spec mid hmid
      { workspaceId := row.workspaceId, projectId := project.projectId
        kind := if row.workspaceId = project.sourceWorkspaceId then .source else .worktree } p
      ⟨row, hgrows.workspaces.subset hrow, rfl⟩ hin hid hkind
    exact ⟨ht, hgrows.trans hgrows', hbound⟩

/-! ## Registration and migration -/

/-- Every Workspace has a binding, and the tables are linked. -/
def Identified (s : RuntimeStore) : Prop :=
  s.Linked ∧ ∀ w ∈ s.workspaces, s.IsBound w.workspaceId

theorem registerWorkspaceLocked_spec {s t : RuntimeStore} {env : Env} {path : String}
    {gitRoot : Option String} {onRegistered : WorkspaceRecord → Except PyError Unit}
    {record : WorkspaceRecord} (h : s.Identified)
    (hr : s.registerWorkspaceLocked env path gitRoot onRegistered = .ok (record, t)) :
    t.Identified ∧ s.workspaceProjects <+: t.workspaceProjects := by
  unfold registerWorkspaceLocked at hr
  split at hr
  case h_1 =>
    obtain ⟨_, -, hr⟩ := bind_eq_ok.mp hr
    obtain ⟨_, -, hr⟩ := bind_eq_ok.mp hr
    cases hr
    exact ⟨h, List.prefix_refl _⟩
  case h_2 hnone =>
    obtain ⟨⟨source, common⟩, -, hr⟩ := bind_eq_ok.mp hr
    obtain ⟨_, -, hr⟩ := bind_eq_ok.mp hr
    dsimp only at hr
    split at hr
    · cases hr
    case h_2 row hrow =>
      obtain ⟨last, hb, hr⟩ := bind_eq_ok.mp hr
      obtain ⟨_, -, hr⟩ := bind_eq_ok.mp hr
      obtain ⟨_, -, hr⟩ := bind_eq_ok.mp hr
      cases hr
      split at hrow
      case h_1 mid hi =>
        rw [hi] at hb
        obtain ⟨hlast, hgrows, hbound⟩ :=
          bindProject_spec (h.1.insertWorkspace hi) (List.mem_of_find?_eq_some hrow) hb
        obtain ⟨-, -, rfl⟩ := insertWorkspace_eq_ok.mp hi
        refine ⟨⟨hlast, fun w hw => ?_⟩, hgrows.bindings⟩
        rcases hgrows.fresh w hw with hold | hnew
        · rcases List.mem_append.mp hold with hold | hnew
          · exact (h.2 w hold).mono hgrows.bindings
          · rw [List.find?_append, hnone, Option.none_or] at hrow
            rw [List.mem_singleton.mp hnew,
              ← List.mem_singleton.mp (List.mem_of_find?_eq_some hrow)]
            exact hbound
        · exact hnew
      case h_2 => simp [hnone] at hrow

/-- Binding old rows one after another leaves each of them bound. -/
theorem foldlM_bindOld {env : String → Env} {rows : List Workspace} {s t : RuntimeStore}
    (h : s.Linked) (hrows : ∀ row ∈ rows, row ∈ s.workspaces)
    (hf : rows.foldlM (bindOld env) s = .ok t) :
    t.Linked ∧ s.Grows t ∧ ∀ row ∈ rows, t.IsBound row.workspaceId := by
  induction rows generalizing s with
  | nil =>
    cases hf
    exact ⟨h, .refl _, by simp⟩
  | cons row rows ih =>
    rw [List.foldlM_cons] at hf
    obtain ⟨mid, hmid, hf⟩ := bind_eq_ok.mp hf
    obtain ⟨_, -, hb⟩ := bind_eq_ok.mp hmid
    obtain ⟨hlinked, hgrows, hbound⟩ := bindProject_spec h (hrows row (by simp)) hb
    have hrest : ∀ other ∈ rows, other ∈ mid.workspaces := fun other hother =>
      hgrows.workspaces.subset (hrows other (List.mem_cons_of_mem _ hother))
    obtain ⟨ht, hmore, hall⟩ := ih hlinked hrest hf
    refine ⟨ht, hgrows.trans hmore, ?_⟩
    intro other hother
    rcases List.mem_cons.mp hother with rfl | hother
    · exact hbound.mono hmore.bindings
    · exact hall other hother

theorem migrateProjects_spec {env : String → Env} {s t : RuntimeStore} (h : s.Linked)
    (hm : s.migrateProjects env = .ok t) : t.Identified := by
  obtain ⟨ht, hgrows, hall⟩ :=
    foldlM_bindOld h (fun row hrow => by simpa using hrow) hm
  refine ⟨ht, fun w hw => ?_⟩
  rcases hgrows.fresh w hw with hold | hnew
  · exact hall w (by simpa using hold)
  · exact hnew

/-! ## Removal -/

/-- The rows that name a Workspace leave with it. -/
theorem Linked.remove {s : RuntimeStore} (h : s.Linked) {workspaceId : String}
    {projects : List Project} (hsub : projects.Sublist s.projects)
    (hproject : ∀ b ∈ s.workspaceProjects, b.workspaceId ≠ workspaceId →
      ∃ p ∈ projects, p.projectId = b.projectId)
    (hsource : ∀ p ∈ projects, p.sourceWorkspaceId ≠ workspaceId) :
    Linked { s with
      projects, workspaces := s.workspaces.filter (·.workspaceId ≠ workspaceId)
      workspaceProjects := s.workspaceProjects.filter (·.workspaceId ≠ workspaceId) } where
  bindingIds := h.bindingIds.sublist (List.filter_sublist.map _)
  projectIds := h.projectIds.sublist (hsub.map _)
  commons := h.commons.sublist hsub
  workspace := by
    intro b hb
    obtain ⟨hb, hne⟩ := List.mem_filter.mp hb
    obtain ⟨w, hw, hid⟩ := h.workspace b hb
    exact ⟨w, List.mem_filter.mpr ⟨hw, by simpa [hid] using hne⟩, hid⟩
  project := by
    intro b hb
    obtain ⟨hb, hne⟩ := List.mem_filter.mp hb
    exact hproject b hb (by simpa using hne)
  kind := fun p hp b hb => h.kind p (hsub.subset hp) b (List.mem_filter.mp hb).1
  source := by
    intro p hp
    obtain ⟨b, hb, hid, hsrc⟩ := h.source p (hsub.subset hp)
    refine ⟨b, List.mem_filter.mpr ⟨hb, ?_⟩, hid, hsrc⟩
    simpa [hsrc] using hsource p hp

/-- A binding outlives a call unless its Workspace leaves. -/
def Keeps (s t : RuntimeStore) : Prop :=
  ∀ b ∈ s.workspaceProjects, (∃ w ∈ t.workspaces, w.workspaceId = b.workspaceId) →
    b ∈ t.workspaceProjects

theorem deleteBound_eq_ok {s t : RuntimeStore} {record : WorkspaceRecord}
    (h : s.deleteBound record = .ok t) :
    ∃ projects : List Project, projects.Sublist s.projects ∧
      ((∀ b ∈ s.workspaceProjects, b.workspaceId ≠ record.workspaceId →
        ∀ p ∈ s.projects, p.projectId = b.projectId → p ∈ projects)) ∧
      (∀ p ∈ projects, p.sourceWorkspaceId ≠ record.workspaceId) ∧
      t = { s with
        projects, workspaces := s.workspaces.filter (·.workspaceId ≠ record.workspaceId)
        workspaceProjects :=
          s.workspaceProjects.filter (·.workspaceId ≠ record.workspaceId) } := by
  have hdelete : ∀ {mid : RuntimeStore}, mid.deleteWorkspace record.workspaceId = .ok t →
      (∀ p ∈ mid.projects, p.sourceWorkspaceId ≠ record.workspaceId) ∧
        t = { mid with
          workspaces := mid.workspaces.filter (·.workspaceId ≠ record.workspaceId) } := by
    intro mid hd
    obtain ⟨_, hfree, hd⟩ := bind_eq_ok.mp hd
    rw [raiseIf_eq_ok] at hfree
    cases hd
    exact ⟨fun p hp heq => hfree (.inr (.inl ⟨p, hp, heq⟩)), rfl⟩
  unfold deleteBound at h
  dsimp only at h
  split at h
  case isTrue =>
    obtain ⟨mid, hmid, h⟩ := bind_eq_ok.mp h
    obtain ⟨_, hunnamed, hmid⟩ := bind_eq_ok.mp hmid
    rw [raiseIf_eq_ok] at hunnamed
    cases hmid
    obtain ⟨hsource, rfl⟩ := hdelete h
    refine ⟨_, List.filter_sublist, fun b hb hne p hp hid => ?_, hsource, rfl⟩
    refine List.mem_filter.mpr ⟨hp, decide_eq_true fun heq => hunnamed ?_⟩
    exact ⟨b, List.mem_filter.mpr ⟨hb, decide_eq_true hne⟩, hid.symm.trans heq⟩
  case isFalse =>
    obtain ⟨mid, hmid, h⟩ := bind_eq_ok.mp h
    cases hmid
    obtain ⟨hsource, rfl⟩ := hdelete h
    exact ⟨_, List.Sublist.refl _, fun _ _ _ _ hp _ => hp, hsource, rfl⟩

/-! ## Callbacks -/

/-- Only the log may differ. -/
def OnlyAppends (s t : RuntimeStore) : Prop := t = { s with events := t.events }

theorem OnlyAppends.trans {s t u : RuntimeStore} (h : s.OnlyAppends t) (k : t.OnlyAppends u) :
    s.OnlyAppends u := by
  unfold OnlyAppends at *
  rw [k, h]

theorem OnlyAppends.identified {s t : RuntimeStore} (h : s.OnlyAppends t) (hs : s.Identified) :
    t.Identified := by
  rw [h]
  exact ⟨{ hs.1 with }, hs.2⟩

theorem OnlyAppends.keeps {s t u : RuntimeStore} (h : t.OnlyAppends u) (hk : s.Keeps t) :
    s.Keeps u := by
  rw [h]
  exact hk

theorem appendAll_onlyAppends {env : Env} {k : ℕ} {facts : List (String × Fact)}
    {s t : RuntimeStore} (h : Callback.appendAll env k facts s = .ok t) : s.OnlyAppends t := by
  induction facts generalizing k s with
  | nil =>
    cases h
    rfl
  | cons fact facts ih =>
    obtain ⟨⟨_, mid⟩, ha, h⟩ := bind_eq_ok.mp h
    have hmid : s.OnlyAppends mid := by
      rcases appendFactLocked_cases ha with ⟨rfl, -⟩ | ⟨rfl, -⟩ <;> rfl
    exact hmid.trans (ih h)

theorem callback_onlyAppends {α : Type} {callback : Option (Callback α)} {env : Env} {value : α}
    {s t : RuntimeStore} (h : Callback.run callback env value s = .ok t) : s.OnlyAppends t := by
  unfold Callback.run at h
  split at h
  · cases h
    rfl
  · rename_i callback
    obtain ⟨mid, ha, h⟩ := bind_eq_ok.mp h
    cases hfault : callback.fault with
    | none =>
      rw [hfault] at h
      cases h
      exact appendAll_onlyAppends ha
    | some error =>
      rw [hfault] at h
      cases h

/-! ## Calls -/

theorem removeWorkspaceLocked_spec {s t : RuntimeStore} {env : Env} {workspaceId : String}
    {onRemoved : Option (Callback Unit)} (h : s.Identified)
    (hr : s.removeWorkspaceLocked env workspaceId onRemoved = .ok ((), t)) :
    t.Identified ∧ s.Keeps t := by
  obtain ⟨record, hrecord, hr⟩ := bind_eq_ok.mp hr
  obtain ⟨_, -, hr⟩ := bind_eq_ok.mp hr
  obtain ⟨_, -, hr⟩ := bind_eq_ok.mp hr
  obtain ⟨mid, hmid, hr⟩ := bind_eq_ok.mp hr
  obtain ⟨last, hrun, hr⟩ := bind_eq_ok.mp hr
  cases hr
  obtain ⟨projects, hsub, hnamed, hsource, rfl⟩ := deleteBound_eq_ok hmid
  have hlinked := h.1.remove hsub (fun b hb hne => by
    obtain ⟨p, hp, hid⟩ := h.1.project b hb
    exact ⟨p, hnamed b hb hne p hp hid, hid⟩) hsource
  have hlast := callback_onlyAppends hrun
  refine ⟨hlast.identified ⟨hlinked, fun w hw => ?_⟩, hlast.keeps fun b hb => ?_⟩
  · obtain ⟨hw, hne⟩ := List.mem_filter.mp hw
    obtain ⟨b, hb, hid⟩ := h.2 w hw
    exact ⟨b, List.mem_filter.mpr ⟨hb, by simpa [hid] using hne⟩, hid⟩
  · rintro ⟨w, hw, hid⟩
    obtain ⟨-, hne⟩ := List.mem_filter.mp hw
    exact List.mem_filter.mpr ⟨hb, by simpa [hid] using hne⟩

theorem Keeps.refl (s : RuntimeStore) : s.Keeps s := fun _ hb _ => hb

theorem perform_spec {s : RuntimeStore} (h : s.Identified) (env : Env) (call : ProjectCall) :
    (call.perform s env).2.Identified ∧ s.Keeps (call.perform s env).2 := by
  cases call with
  | register path gitRoot onRegistered =>
    refine transaction_relates (R := fun s t => s.Identified → t.Identified ∧ s.Keeps t)
      (fun s h => ⟨h, .refl s⟩) s (fun _ t hbody h => ?_) h
    obtain ⟨⟨record, mid⟩, hr, hbody⟩ := bind_eq_ok.mp hbody
    obtain ⟨last, hrun, hbody⟩ := bind_eq_ok.mp hbody
    cases hbody
    obtain ⟨hmid, hsub⟩ := registerWorkspaceLocked_spec h hr
    have hlast := callback_onlyAppends hrun
    exact ⟨hlast.identified hmid, hlast.keeps fun b hb _ => hsub.subset hb⟩
  | remove workspaceId onRemoved =>
    exact transaction_relates (R := fun s t => s.Identified → t.Identified ∧ s.Keeps t)
      (fun s h => ⟨h, .refl s⟩) s (fun _ t hbody h => removeWorkspaceLocked_spec h hbody) h

/-- A call that raises leaves the whole database as it was. -/
theorem perform_error {s : RuntimeStore} {env : Env} {call : ProjectCall} {error : PyError}
    (h : (call.perform s env).1 = .error error) : (call.perform s env).2 = s := by
  cases call with
  | register path gitRoot onRegistered => exact transaction_unchanged h
  | remove workspaceId onRemoved => exact transaction_unchanged h

theorem after_spec {s : RuntimeStore} (h : s.Identified) (calls : List (Env × ProjectCall)) :
    (ProjectCall.after s calls).Identified :=
  runCalls_invariant (I := Identified) (fun _ c hs => (perform_spec hs c.1 c.2).1) h calls

/-- A Workspace that is there after every call of a run keeps its binding through the run. -/
theorem after_keeps {s : RuntimeStore} (h : s.Identified) {calls : List (Env × ProjectCall)}
    {b : ProjectBinding} (hb : b ∈ s.workspaceProjects)
    (hw : ∀ front, front <+: calls →
      ∃ w ∈ (ProjectCall.after s front).workspaces, w.workspaceId = b.workspaceId) :
    b ∈ (ProjectCall.after s calls).workspaceProjects := by
  induction calls generalizing s with
  | nil => exact hb
  | cons c calls ih =>
    obtain ⟨hstep, hkeeps⟩ := perform_spec h c.1 c.2
    have hthere : ∃ w ∈ (c.2.perform s c.1).2.workspaces, w.workspaceId = b.workspaceId :=
      hw [c] (List.prefix_append [c] calls)
    refine ih hstep (hkeeps b hb hthere) fun front hfront => ?_
    exact hw (c :: front) ((List.cons_prefix_cons).mpr ⟨rfl, hfront⟩)

/-! ## Project identity -/

structure ProjectIdentity (s : RuntimeStore) : Prop where
  workspace : ∀ w ∈ s.workspaces,
    ∃ b, s.workspaceProjects.filter (·.workspaceId = w.workspaceId) = [b]
  source : ∀ p ∈ s.projects, ∃ b, b.workspaceId = p.sourceWorkspaceId ∧
    s.workspaceProjects.filter (fun b => b.projectId = p.projectId ∧ b.kind = .source) = [b]
  commons : s.projects.Pairwise fun p q =>
    p.gitCommonDir.isSome = true → p.gitCommonDir ≠ q.gitCommonDir

theorem Identified.identity {s : RuntimeStore} (h : s.Identified) : s.ProjectIdentity where
  workspace := by
    intro w hw
    obtain ⟨b, hb, hid⟩ := h.2 w hw
    exact ⟨b, hid ▸ Sequence.filter_key h.1.bindingIds hb⟩
  source := by
    intro p hp
    obtain ⟨b, hb, hproject, hsource⟩ := h.1.source p hp
    refine ⟨b, hsource, ?_⟩
    rw [← Sequence.filter_key h.1.bindingIds hb]
    refine List.filter_congr fun other hother => decide_eq_decide.mpr ⟨fun heq => ?_, fun heq => ?_⟩
    · exact ((h.1.kind p hp other hother heq.1).mp heq.2).trans hsource.symm
    · obtain rfl := h.1.binding_ext hother hb heq
      exact ⟨hproject, (h.1.kind p hp other hother hproject).mpr hsource⟩
  commons := h.1.commons

/-- A database that is empty, or whose old Workspaces the migration has bound. -/
inductive ProjectStart : RuntimeStore → Prop where
  | empty (stateRoot : String) : ProjectStart { stateRoot }
  | migrated {old s : RuntimeStore} (env : String → Env) : old.projects = [] →
      old.workspaceProjects = [] → old.migrateProjects env = .ok s → ProjectStart s

theorem Linked.of_empty {s : RuntimeStore} (hp : s.projects = [])
    (hb : s.workspaceProjects = []) : s.Linked := by
  constructor <;> simp [hp, hb]

theorem ProjectStart.identified {s : RuntimeStore} (h : ProjectStart s) : s.Identified := by
  cases h with
  | empty stateRoot => exact ⟨.of_empty rfl rfl, by simp⟩
  | migrated env hp hb hm => exact migrateProjects_spec (.of_empty hp hb) hm

theorem project_identity {start : RuntimeStore} (hs : ProjectStart start)
    (calls : List (Env × ProjectCall)) :
    (ProjectCall.after start calls).ProjectIdentity ∧
      (∀ more : List (Env × ProjectCall), ∀ b ∈ (ProjectCall.after start calls).workspaceProjects,
        (∀ front, front <+: more → ∃ w ∈ (ProjectCall.after start (calls ++ front)).workspaces,
          w.workspaceId = b.workspaceId) →
        b ∈ (ProjectCall.after start (calls ++ more)).workspaceProjects) ∧
      ∀ (env : Env) (call : ProjectCall) (error : PyError),
        (call.perform (ProjectCall.after start calls) env).1 = .error error →
          (call.perform (ProjectCall.after start calls) env).2 = ProjectCall.after start calls := by
  have h := after_spec hs.identified calls
  refine ⟨h.identity, fun more b hb hw => ?_, fun _ _ _ he => perform_error he⟩
  simp only [ProjectCall.after, runCalls_append] at hw ⊢
  exact after_keeps h hb hw

/-- Two Workspaces of an old release that share one Git directory. -/
def oldWorkspaces : RuntimeStore where
  workspaces :=
    [{ workspaceId := "ws_copy", name := "copy", path := "/copy", gitRoot := some "/copy"
       createdAt := 1 },
     { workspaceId := "ws_main", name := "main", path := "/main", gitRoot := some "/main"
       createdAt := 2 }]

def oldEnv (workspaceId : String) : Env where
  tick k := { uuid := workspaceId ++ toString k, now := 3 }
  digest _ := ""
  projectSource _ _ := .ok ("/main", some "/main/.git")

/-- The two after the migration: the older row finds its source, which is a Workspace already. -/
def migratedWorkspaces : RuntimeStore :=
  (oldWorkspaces.migrateProjects oldEnv).toOption.getD {}

theorem project_identity_migrated :
    ProjectIdentity (ProjectCall.after migratedWorkspaces
      [(oldEnv "ws_copy", .remove "ws_copy" none)]) := by
  have hm : oldWorkspaces.migrateProjects oldEnv = .ok migratedWorkspaces := rfl
  exact (project_identity (.migrated oldEnv rfl rfl hm) _).1

end RuntimeStore

end Eventide
