import KamuSinavi.Lib.Calls
import KamuSinavi.Lib.LinkedMap
import KamuSinavi.Lib.Sorting

/-! # The notification board

The dashboards of the admins add, edit and delete notifications (`addNotification`,
`buildNotificationForm` and `_showEditDialog` in `pages/adminDashboard.dart`), and
`showNotificationsPanel` (`notifications.dart`) shows them to everybody, the newest first.

Snapshots of the collection come at any time; writes are done at any later time, in any order, or fail.
A document is added under an id that no other has, and at a later time than those before it. An update
of a document that does not exist fails, and deleting it does nothing.

`listed` says that what is shown is what the writes done so far, or up to some earlier time, make of an
empty board. `drawn` is about the colours and icons. -/

namespace KamuSinavi.Notifications

open KamuSinavi.Lib KamuSinavi.Lib.Runs

inductive Color where
  | red | green | blue | orange | purple | grey
  deriving DecidableEq

inductive IconData where
  | notifications | info | warning | error | systemUpdate
  deriving DecidableEq

structure Notification where
  title : String
  subtitle : String
  color : String
  icon : String
  deriving DecidableEq

/-- A document of the collection `notifications`. -/
structure Document extends Notification where
  timestamp : ℕ
  deriving DecidableEq

def colorOptions : List String := ["Mavi", "Kırmızı", "Yeşil", "Turuncu", "Mor"]

def iconOptions : List String := ["Bildirimler", "Bilgi", "Uyarı", "Hata", "Güncelleme"]

def iconMap : List (String × IconData) :=
  [("Bildirimler", .notifications), ("Bilgi", .info), ("Uyarı", .warning), ("Hata", .error),
    ("Güncelleme", .systemUpdate)]

/-- `toLowerCase`; the options have no capitals but those of ASCII. -/
def toLowerCase (s : String) : String := String.ofList (s.toList.map Char.toLower)

/-- `_parseColor`. -/
def parseColor (colorName : String) : Color :=
  match toLowerCase colorName with
  | "red" => .red
  | "green" => .green
  | "blue" => .blue
  | "orange" => .orange
  | "purple" => .purple
  | _ => .grey

/-- `_getIconFromName`. -/
def getIconFromName (iconName : String) : IconData :=
  match toLowerCase iconName with
  | "warning" => .warning
  | "info" => .info
  | "error" => .error
  | "update" => .systemUpdate
  | _ => .notifications

/-- The icon of a card on the dashboard. -/
def cardIcon (n : Notification) : IconData := (iconMap.lookup n.icon).getD .notifications

/-- An open `_showEditDialog` with what is typed in it. -/
structure Dialog where
  docId : String
  title : String
  subtitle : String
  deriving DecidableEq

/-- A dashboard: the form, the documents of the last snapshot, and the dialogs. -/
structure Dashboard where
  title : String
  subtitle : String
  selectedColor : String
  selectedIcon : String
  docs : List (String × Notification)
  dialogs : List Dialog
  mounted : Bool
  deriving DecidableEq

def newDashboard : Dashboard :=
  { title := "", subtitle := "", selectedColor := "Mavi", selectedIcon := "Bildirimler", docs := [],
    dialogs := [], mounted := true }

/-- A write on its way. -/
inductive Call where
  | add (dashboard : ℕ) (data : Notification)
  | update (docId title subtitle : String)
  | delete (docId : String)
  deriving DecidableEq

/-- A write that has been done. -/
inductive Write where
  | add (docId : String) (data : Notification)
  | update (docId title subtitle : String)
  | delete (docId : String)
  deriving DecidableEq

/-- The collection, the dashboards and the open panels. `performed` holds the writes done so far. -/
structure State where
  documents : LinkedMap String Document
  now : ℕ
  dashboards : List Dashboard
  panels : List (List Notification)
  calls : List Call
  performed : List Write
  deriving DecidableEq

inductive Action where
  | openDashboard
  | closeDashboard (d : ℕ)
  | snapshot (d : ℕ)
  | type (d : ℕ) (title subtitle : String)
  | selectColor (d : ℕ) (color : String)
  | selectIcon (d : ℕ) (icon : String)
  | tapCreate (d : ℕ)
  | tapEdit (d index : ℕ)
  | typeDialog (d dialog : ℕ) (title subtitle : String)
  | closeDialog (d dialog : ℕ)
  | tapSave (d dialog : ℕ)
  | tapDelete (d index : ℕ)
  | done (k : ℕ) (docId : String)
  | fails (k : ℕ)
  | openPanel
  | panelSnapshot (p : ℕ)
  | closePanel (p : ℕ)

/-- What a query for the notifications gets, the newest first. -/
def listing (s : State) : List (String × Notification) :=
  (s.documents.entries.insertionSort (Sorting.Descending (fun e => e.2.timestamp) Prod.fst)).map
    fun e => (e.1, e.2.toNotification)

/-- `addNotification` of what the form says. -/
def Dashboard.notification (x : Dashboard) : Notification :=
  { title := x.title, subtitle := x.subtitle, color := x.selectedColor, icon := x.selectedIcon }

/-- A change of a dashboard that is there. -/
def onDashboard (s : State) (d : ℕ) (change : Dashboard → Option Dashboard) : Option State :=
  s.dashboards[d]?.bind fun x =>
    if x.mounted then (change x).map fun x' => { s with dashboards := s.dashboards.set d x' } else none

/-- A write that a dashboard starts. -/
def start (s : State) (d : ℕ) (call : Dashboard → Option Call) : Option State :=
  s.dashboards[d]?.bind fun x =>
    if x.mounted then (call x).map fun c => { s with calls := s.calls ++ [c] } else none

/-- The fields are cleared when the document has been added, unless the dashboard is gone. -/
def clear (dashboards : List Dashboard) (d : ℕ) : List Dashboard :=
  match dashboards[d]? with
  | none => dashboards
  | some x => if x.mounted then dashboards.set d { x with title := "", subtitle := "" } else dashboards

/-- The write `k` is done; a new document gets the id `docId`. -/
def done (s : State) (k : ℕ) (docId : String) : Call → Option State
  | .add d data =>
    if s.documents.get? docId = none then
      some { s with
        documents := s.documents.set docId { data with timestamp := s.now }
        now := s.now + 1
        dashboards := clear s.dashboards d
        calls := s.calls.eraseIdx k
        performed := s.performed ++ [.add docId data] }
    else none
  | .update docId title subtitle => (s.documents.get? docId).map fun doc =>
    { s with
      documents := s.documents.set docId { doc with title := title, subtitle := subtitle }
      calls := s.calls.eraseIdx k
      performed := s.performed ++ [.update docId title subtitle] }
  | .delete docId =>
    some { s with
      documents := s.documents.erase docId
      calls := s.calls.eraseIdx k
      performed := s.performed ++ [.delete docId] }

def step (s : State) : Action → Option State
  | .openDashboard => some { s with dashboards := s.dashboards ++ [newDashboard] }
  | .closeDashboard d => onDashboard s d fun x => some { x with mounted := false }
  | .snapshot d => onDashboard s d fun x => some { x with docs := listing s }
  | .type d title subtitle => onDashboard s d fun x => some { x with title := title, subtitle := subtitle }
  | .selectColor d color => onDashboard s d fun x =>
    if color ∈ colorOptions then some { x with selectedColor := color } else none
  | .selectIcon d icon => onDashboard s d fun x =>
    if icon ∈ iconOptions then some { x with selectedIcon := icon } else none
  | .tapCreate d => start s d fun x =>
    if x.title.isEmpty ∨ x.subtitle.isEmpty then none else some (.add d x.notification)
  | .tapEdit d index => onDashboard s d fun x => x.docs[index]?.map fun e =>
    { x with dialogs := x.dialogs ++ [{ docId := e.1, title := e.2.title, subtitle := e.2.subtitle }] }
  | .typeDialog d k title subtitle => onDashboard s d fun x => x.dialogs[k]?.map fun dialog =>
    { x with dialogs := x.dialogs.set k { dialog with title := title, subtitle := subtitle } }
  | .closeDialog d k => onDashboard s d fun x => some { x with dialogs := x.dialogs.eraseIdx k }
  | .tapSave d k => start s d fun x =>
    x.dialogs[k]?.map fun dialog => .update dialog.docId dialog.title dialog.subtitle
  | .tapDelete d index => start s d fun x => x.docs[index]?.map fun e => .delete e.1
  | .done k docId => s.calls[k]?.bind fun c => done s k docId c
  | .fails k => s.calls[k]?.map fun _ => { s with calls := s.calls.eraseIdx k }
  | .openPanel => some { s with panels := s.panels ++ [[]] }
  | .panelSnapshot p => s.panels[p]?.map fun _ =>
    { s with panels := s.panels.set p ((listing s).map Prod.snd) }
  | .closePanel p => s.panels[p]?.map fun _ => { s with panels := s.panels.eraseIdx p }

/-- Nothing has been added. -/
def installed : State :=
  { documents := LinkedMap.empty, now := 0, dashboards := [], panels := [], calls := [],
    performed := [] }

/-! ### What the board should be -/

/-- What a write makes of a board. -/
def Write.effect (board : List (String × Notification)) : Write → List (String × Notification)
  | .add docId data => (docId, data) :: board
  | .update docId title subtitle => board.map fun e =>
    if e.1 = docId then (e.1, { e.2 with title := title, subtitle := subtitle }) else e
  | .delete docId => board.filter fun e => e.1 ≠ docId

/-- **The fold of the writes**, the newest notification first. -/
def board (performed : List Write) : List (String × Notification) := performed.foldl Write.effect []

/-- The list is the board after the writes up to some time. -/
def WasBoard (s : State) (docs : List (String × Notification)) : Prop :=
  ∃ before, before <+: s.performed ∧ docs = board before

/-- **The notifications are listed as the writes leave them**: a query gets the board, and dashboards
and panels show it as it was at some time. -/
structure Listed (s : State) : Prop where
  listing : listing s = board s.performed
  dashboards : ∀ x ∈ s.dashboards, WasBoard s x.docs
  panels : ∀ p ∈ s.panels, ∃ docs, WasBoard s docs ∧ p = docs.map Prod.snd

/-- **A panel draws every notification alike**, whereas its card has the icon that was chosen. -/
def Drawn (s : State) : Prop :=
  ∀ p ∈ s.panels, ∀ n ∈ p, parseColor n.color = .grey ∧ getIconFromName n.icon = .notifications ∧
    (n.icon, cardIcon n) ∈ iconMap

/-! ### What a step does -/

/-- What a step makes of one dashboard. -/
inductive DashboardStep (s : State) (x : Dashboard) : Dashboard → Prop
  | typed (title subtitle : String) : DashboardStep s x { x with title := title, subtitle := subtitle }
  | closed : DashboardStep s x { x with mounted := false }
  | snapped : DashboardStep s x { x with docs := listing s }
  | colored {color : String} (h : color ∈ colorOptions) :
    DashboardStep s x { x with selectedColor := color }
  | iconed {icon : String} (h : icon ∈ iconOptions) : DashboardStep s x { x with selectedIcon := icon }
  | dialogs (dialogs : List Dialog) : DashboardStep s x { x with dialogs := dialogs }

/-- What a write makes of the collection, and of the board. -/
inductive WriteStep (s : State) : LinkedMap String Document → ℕ → Write → Prop
  | added {docId : String} (data : Notification) (h : s.documents.get? docId = none) :
    WriteStep s (s.documents.set docId { data with timestamp := s.now }) (s.now + 1) (.add docId data)
  | updated {docId title subtitle : String} {doc : Document} (h : s.documents.get? docId = some doc) :
    WriteStep s (s.documents.set docId { doc with title := title, subtitle := subtitle }) s.now
      (.update docId title subtitle)
  | deleted (docId : String) : WriteStep s (s.documents.erase docId) s.now (.delete docId)

/-- **What a step makes of the state**, and when. -/
inductive Steps (s : State) : State → Prop
  | opened : Steps s { s with dashboards := s.dashboards ++ [newDashboard] }
  | dashboard {d : ℕ} {x x' : Dashboard} (hx : s.dashboards[d]? = some x) (h : DashboardStep s x x') :
    Steps s { s with dashboards := s.dashboards.set d x' }
  | started {x : Dashboard} (hx : x ∈ s.dashboards) {c : Call}
    (h : ∀ d data, c = .add d data → data = x.notification) : Steps s { s with calls := s.calls ++ [c] }
  | written {k : ℕ} {c : Call} (hc : s.calls[k]? = some c) {documents : LinkedMap String Document}
    {now : ℕ} {w : Write} (h : WriteStep s documents now w) {dashboards : List Dashboard}
    (hdashboards : dashboards = s.dashboards ∨ ∃ d x, s.dashboards[d]? = some x ∧
      dashboards = s.dashboards.set d { x with title := "", subtitle := "" })
    (hw : ∀ docId data, w = .add docId data → ∃ d, c = .add d data) :
    Steps s { s with
      documents := documents
      now := now
      dashboards := dashboards
      calls := s.calls.eraseIdx k
      performed := s.performed ++ [w] }
  | failed (k : ℕ) : Steps s { s with calls := s.calls.eraseIdx k }
  | panelOpened : Steps s { s with panels := s.panels ++ [[]] }
  | panelSnapped (p : ℕ) : Steps s { s with panels := s.panels.set p ((listing s).map Prod.snd) }
  | panelClosed (p : ℕ) : Steps s { s with panels := s.panels.eraseIdx p }

theorem steps_of_onDashboard {s t : State} {d : ℕ} {change : Dashboard → Option Dashboard}
    (h : onDashboard s d change = some t)
    (hchange : ∀ x x', change x = some x' → DashboardStep s x x') : Steps s t := by
  obtain ⟨x, hx, h⟩ := Option.bind_eq_some_iff.mp h
  split_ifs at h
  obtain ⟨x', hx', rfl⟩ := Option.map_eq_some_iff.mp h
  exact .dashboard hx (hchange x x' hx')

theorem steps_of_start {s t : State} {d : ℕ} {call : Dashboard → Option Call}
    (h : start s d call = some t)
    (hcall : ∀ x c, call x = some c → ∀ d data, c = .add d data → data = x.notification) :
    Steps s t := by
  obtain ⟨x, hx, h⟩ := Option.bind_eq_some_iff.mp h
  split_ifs at h
  obtain ⟨c, hc, rfl⟩ := Option.map_eq_some_iff.mp h
  exact .started (List.mem_of_getElem? hx) (hcall x c hc)

/-- Clearing the fields changes one dashboard at most. -/
theorem clear_cases (dashboards : List Dashboard) (d : ℕ) :
    clear dashboards d = dashboards ∨ ∃ d' x, dashboards[d']? = some x ∧
      clear dashboards d = dashboards.set d' { x with title := "", subtitle := "" } := by
  unfold clear
  cases hx : dashboards[d]? with
  | none => exact Or.inl rfl
  | some x =>
    simp only
    split_ifs
    · exact Or.inr ⟨d, x, hx, rfl⟩
    · exact Or.inl rfl

theorem steps_of_done {s t : State} {k : ℕ} {docId : String} {c : Call} (hc : s.calls[k]? = some c)
    (h : done s k docId c = some t) : Steps s t := by
  cases c with
  | add d data =>
    simp only [done, Option.ite_none_right_eq_some, Option.some.injEq] at h
    obtain ⟨hnone, rfl⟩ := h
    exact .written hc (.added data hnone) (clear_cases s.dashboards d)
      fun _ _ he => ⟨d, by rw [(Write.add.inj he).2]⟩
  | update docId title subtitle =>
    obtain ⟨doc, hdoc, rfl⟩ := Option.map_eq_some_iff.mp h
    exact .written hc (.updated hdoc) (Or.inl rfl) fun _ _ he => by cases he
  | delete docId =>
    obtain rfl := Option.some.inj h
    exact .written hc (.deleted docId) (Or.inl rfl) fun _ _ he => by cases he

theorem steps_of_step {s t : State} {a : Action} (h : step s a = some t) : Steps s t := by
  cases a with
  | openDashboard =>
    obtain rfl := Option.some.inj h
    exact .opened
  | closeDashboard d =>
    refine steps_of_onDashboard h fun x x' hx => ?_
    obtain rfl := Option.some.inj hx
    exact .closed
  | snapshot d =>
    refine steps_of_onDashboard h fun x x' hx => ?_
    obtain rfl := Option.some.inj hx
    exact .snapped
  | type d title subtitle =>
    refine steps_of_onDashboard h fun x x' hx => ?_
    obtain rfl := Option.some.inj hx
    exact .typed title subtitle
  | selectColor d color =>
    refine steps_of_onDashboard h fun x x' hx => ?_
    obtain ⟨hcolor, rfl⟩ : color ∈ colorOptions ∧ _ := by simpa using hx
    exact .colored hcolor
  | selectIcon d icon =>
    refine steps_of_onDashboard h fun x x' hx => ?_
    obtain ⟨hicon, rfl⟩ : icon ∈ iconOptions ∧ _ := by simpa using hx
    exact .iconed hicon
  | tapCreate d =>
    refine steps_of_start h fun x c hc d' data he => ?_
    split_ifs at hc
    subst he
    exact (Call.add.inj (Option.some.inj hc)).2.symm
  | tapEdit d index =>
    refine steps_of_onDashboard h fun x x' hx => ?_
    obtain ⟨e, -, rfl⟩ := Option.map_eq_some_iff.mp hx
    exact .dialogs _
  | typeDialog d k title subtitle =>
    refine steps_of_onDashboard h fun x x' hx => ?_
    obtain ⟨dialog, -, rfl⟩ := Option.map_eq_some_iff.mp hx
    exact .dialogs _
  | closeDialog d k =>
    refine steps_of_onDashboard h fun x x' hx => ?_
    obtain rfl := Option.some.inj hx
    exact .dialogs _
  | tapSave d k =>
    refine steps_of_start h fun x c hc d' data he => ?_
    obtain ⟨dialog, -, rfl⟩ := Option.map_eq_some_iff.mp hc
    cases he
  | tapDelete d index =>
    refine steps_of_start h fun x c hc d' data he => ?_
    obtain ⟨e, -, rfl⟩ := Option.map_eq_some_iff.mp hc
    cases he
  | done k docId =>
    obtain ⟨c, hc, h⟩ := Option.bind_eq_some_iff.mp h
    exact steps_of_done hc h
  | fails k =>
    obtain ⟨c, -, rfl⟩ := Option.map_eq_some_iff.mp h
    exact .failed k
  | openPanel =>
    obtain rfl := Option.some.inj h
    exact .panelOpened
  | panelSnapshot p =>
    obtain ⟨l, -, rfl⟩ := Option.map_eq_some_iff.mp h
    exact .panelSnapped p
  | closePanel p =>
    obtain ⟨l, -, rfl⟩ := Option.map_eq_some_iff.mp h
    exact .panelClosed p

/-! ### The board -/

theorem board_concat (performed : List Write) (w : Write) :
    board (performed ++ [w]) = w.effect (board performed) := by
  rw [board, List.foldl_append]
  rfl

/-- The documents in the order of the board. -/
structure Rows (documents : LinkedMap String Document) (now : ℕ) (performed : List Write)
    (rows : List (String × Document)) : Prop where
  mem : ∀ e, e ∈ rows ↔ documents.get? e.1 = some e.2
  sorted : rows.Pairwise fun a b => b.2.timestamp < a.2.timestamp
  now : ∀ e ∈ rows, e.2.timestamp < now
  board : rows.map (fun e => (e.1, e.2.toNotification)) = board performed

theorem Rows.nodup {documents : LinkedMap String Document} {now : ℕ} {performed : List Write}
    {rows : List (String × Document)} (h : Rows documents now performed rows) : rows.Nodup :=
  h.sorted.imp fun hlt he => absurd (he ▸ hlt) (lt_irrefl _)

/-- **A query gets the documents in the order of the board.** -/
theorem listing_eq {s : State} {rows : List (String × Document)}
    (h : Rows s.documents s.now s.performed rows) : listing s = board s.performed := by
  have hperm : rows.Perm s.documents.entries := by
    refine (List.perm_ext_iff_of_nodup h.nodup (List.Nodup.of_map _ s.documents.nodup)).mpr fun e => ?_
    exact (h.mem e).trans LinkedMap.get?_eq_some_iff
  have hsorted : rows.Pairwise
      (Sorting.Descending (fun e : String × Document => e.2.timestamp) Prod.fst) :=
    h.sorted.imp fun hlt => Or.inl hlt
  rw [listing, Sorting.insertionSort_eq (Sorting.ordered_of_nodup s.documents.nodup) hperm hsorted,
    h.board]

/-- A new document is the first row. -/
theorem Rows.add {s : State} {rows : List (String × Document)}
    (h : Rows s.documents s.now s.performed rows) {docId : String} (data : Notification)
    (hnone : s.documents.get? docId = none) :
    Rows (s.documents.set docId { data with timestamp := s.now }) (s.now + 1)
      (s.performed ++ [.add docId data]) ((docId, { data with timestamp := s.now }) :: rows) := by
  have hnew : ∀ e ∈ rows, e.1 ≠ docId := fun e he hid => by
    have hget := (h.mem e).mp he
    rw [hid, hnone] at hget
    cases hget
  refine ⟨fun e => ?_, List.pairwise_cons.mpr ⟨h.now, h.sorted⟩,
    List.forall_mem_cons.mpr ⟨Nat.lt_succ_self _, fun e he => (h.now e he).trans (Nat.lt_succ_self _)⟩,
    ?_⟩
  · rw [List.mem_cons, LinkedMap.get?_set]
    by_cases hid : e.1 = docId
    · rw [if_pos hid, or_iff_left fun he => hnew e he hid, Option.some.injEq]
      exact ⟨fun he => he ▸ rfl, fun he => Prod.ext hid he.symm⟩
    · rw [if_neg hid, or_iff_right fun he => hid (congrArg Prod.fst he), h.mem]
  · rw [board_concat, List.map_cons, h.board]
    rfl

/-- What an update makes of a row. -/
def editRow (docId title subtitle : String) (e : String × Document) : String × Document :=
  if e.1 = docId then (e.1, { e.2 with title := title, subtitle := subtitle }) else e

@[simp] theorem fst_editRow (docId title subtitle : String) (e : String × Document) :
    (editRow docId title subtitle e).1 = e.1 := by
  unfold editRow
  split_ifs <;> rfl

@[simp] theorem timestamp_editRow (docId title subtitle : String) (e : String × Document) :
    (editRow docId title subtitle e).2.timestamp = e.2.timestamp := by
  unfold editRow
  split_ifs <;> rfl

/-- The rows after an update are the documents after it. -/
theorem mem_map_editRow {documents : LinkedMap String Document} {rows : List (String × Document)}
    (hrows : ∀ e, e ∈ rows ↔ documents.get? e.1 = some e.2) {docId : String} (title subtitle : String)
    {doc : Document} (hdoc : documents.get? docId = some doc) (e : String × Document) :
    e ∈ rows.map (editRow docId title subtitle) ↔
      (documents.set docId { doc with title := title, subtitle := subtitle }).get? e.1 = some e.2 := by
  rw [List.mem_map, LinkedMap.get?_set]
  constructor
  · rintro ⟨e₀, he₀, rfl⟩
    have hget := (hrows e₀).mp he₀
    rw [fst_editRow]
    unfold editRow
    by_cases hd : e₀.1 = docId
    · rw [hd, hdoc] at hget
      obtain rfl := Option.some.inj hget
      rw [if_pos hd, if_pos hd]
    · rw [if_neg hd, if_neg hd, hget]
  · intro hget
    by_cases hd : e.1 = docId
    · rw [if_pos hd] at hget
      refine ⟨(docId, doc), (hrows _).mpr hdoc, ?_⟩
      unfold editRow
      rw [if_pos rfl]
      exact Prod.ext hd.symm (Option.some.inj hget)
    · rw [if_neg hd] at hget
      refine ⟨e, (hrows e).mpr hget, ?_⟩
      unfold editRow
      rw [if_neg hd]

/-- An update changes a row where it is. -/
theorem Rows.update {s : State} {rows : List (String × Document)}
    (h : Rows s.documents s.now s.performed rows) {docId : String} (title subtitle : String)
    {doc : Document} (hdoc : s.documents.get? docId = some doc) :
    Rows (s.documents.set docId { doc with title := title, subtitle := subtitle }) s.now
      (s.performed ++ [.update docId title subtitle]) (rows.map (editRow docId title subtitle)) := by
  refine ⟨mem_map_editRow h.mem title subtitle hdoc, ?_, ?_, ?_⟩
  · rw [List.pairwise_map]
    simpa using h.sorted
  · rw [List.forall_mem_map]
    simpa using h.now
  · rw [board_concat, Write.effect, ← h.board, List.map_map, List.map_map]
    refine List.map_congr_left fun e _ => ?_
    unfold editRow
    simp only [Function.comp_apply]
    split_ifs <;> rfl

/-- A deletion takes a row out. -/
theorem Rows.delete {s : State} {rows : List (String × Document)}
    (h : Rows s.documents s.now s.performed rows) (docId : String) :
    Rows (s.documents.erase docId) s.now (s.performed ++ [.delete docId])
      (rows.filter fun e => e.1 ≠ docId) := by
  refine ⟨fun e => ?_, h.sorted.filter _, fun e he => h.now e (List.mem_of_mem_filter he), ?_⟩
  · rw [List.mem_filter, LinkedMap.get?_erase, h.mem]
    by_cases hd : e.1 = docId <;> simp [hd]
  · rw [board_concat, Write.effect, ← h.board, List.filter_map]
    rfl

/-- **A write keeps the documents in the order of the board.** -/
theorem rows_write {s : State} {rows : List (String × Document)}
    (h : Rows s.documents s.now s.performed rows) {documents : LinkedMap String Document} {now : ℕ}
    {w : Write} (hw : WriteStep s documents now w) :
    ∃ rows', Rows documents now (s.performed ++ [w]) rows' := by
  cases hw with
  | added data hnone => exact ⟨_, h.add data hnone⟩
  | updated hdoc => exact ⟨_, h.update _ _ hdoc⟩
  | deleted docId => exact ⟨_, h.delete docId⟩

/-! ### What holds along a run -/

/-- The colour and the icon are options of the form. -/
def Chosen (n : Notification) : Prop := n.color ∈ colorOptions ∧ n.icon ∈ iconOptions

/-- What is added has been chosen. -/
def Write.Chooses : Write → Prop
  | .add _ data => Chosen data
  | _ => True

/-- Every notification on the board has the colour and the icon it was added with. -/
theorem chosen_of_mem_board {performed : List Write} (h : ∀ w ∈ performed, w.Chooses) :
    ∀ e ∈ board performed, Chosen e.2 := by
  induction performed using List.reverseRecOn with
  | nil => exact fun _ he => absurd he List.not_mem_nil
  | append_singleton performed w ih =>
    have hold := ih fun w hw => h w (List.mem_append_left _ hw)
    have hw := h w (List.mem_append_right _ (List.mem_singleton_self w))
    rw [board_concat]
    cases w with
    | add docId data => exact List.forall_mem_cons.mpr ⟨hw, hold⟩
    | update docId title subtitle =>
      rw [Write.effect, List.forall_mem_map]
      intro e he
      split_ifs
      · exact hold e he
      · exact hold e he
    | delete docId => exact fun e he => hold e (List.mem_of_mem_filter he)

/-- The board is in the documents, what is shown was on it, and what is chosen and added are options. -/
structure Inv (s : State) : Prop where
  rows : ∃ rows, Rows s.documents s.now s.performed rows
  dashboards : ∀ x ∈ s.dashboards, WasBoard s x.docs ∧ Chosen x.notification
  panels : ∀ p ∈ s.panels, ∃ docs, WasBoard s docs ∧ p = docs.map Prod.snd
  calls : ∀ c ∈ s.calls, ∀ d data, c = .add d data → Chosen data
  performed : ∀ w ∈ s.performed, w.Chooses

theorem wasBoard_nil (s : State) : WasBoard s [] := ⟨[], List.nil_prefix, rfl⟩

theorem WasBoard.mono {s t : State} {docs : List (String × Notification)} (h : WasBoard s docs)
    (hpre : s.performed <+: t.performed) : WasBoard t docs :=
  let ⟨before, hb, he⟩ := h
  ⟨before, hb.trans hpre, he⟩

/-- What a snapshot shows is the board. -/
theorem Inv.wasBoard_listing {s : State} (h : Inv s) : WasBoard s (listing s) := by
  obtain ⟨rows, hrows⟩ := h.rows
  exact ⟨s.performed, List.prefix_refl _, listing_eq hrows⟩

theorem inv_dashboard {s : State} (h : Inv s) {d : ℕ} {x x' : Dashboard} (hx : s.dashboards[d]? = some x)
    (hstep : DashboardStep s x x') : Inv { s with dashboards := s.dashboards.set d x' } := by
  obtain ⟨hdocs, hchosen⟩ := h.dashboards x (List.mem_of_getElem? hx)
  refine ⟨h.rows, Calls.forall_mem_set h.dashboards ?_, h.panels, h.calls, h.performed⟩
  cases hstep with
  | typed | closed | dialogs => exact ⟨hdocs, hchosen⟩
  | snapped => exact ⟨h.wasBoard_listing, hchosen⟩
  | colored hcolor => exact ⟨hdocs, hcolor, hchosen.2⟩
  | iconed hicon => exact ⟨hdocs, hchosen.1, hicon⟩

theorem inv_step {s t : State} {a : Action} (h : Inv s) (hs : step s a = some t) : Inv t := by
  cases steps_of_step hs with
  | opened =>
    refine ⟨h.rows, Calls.forall_mem_concat h.dashboards ⟨wasBoard_nil s, ?_⟩, h.panels, h.calls,
      h.performed⟩
    exact ⟨List.mem_cons_self .., List.mem_cons_self ..⟩
  | dashboard hx hstep => exact inv_dashboard h hx hstep
  | @started x hx c hc =>
    refine ⟨h.rows, h.dashboards, h.panels, Calls.forall_mem_concat h.calls fun d data he => ?_,
      h.performed⟩
    rw [hc d data he]
    exact (h.dashboards x hx).2
  | @written k c hc documents now w hwrite dashboards hdashboards hw =>
    obtain ⟨rows, hrows⟩ := h.rows
    have hpre : s.performed <+: s.performed ++ [w] := List.prefix_append _ _
    have hall : ∀ x ∈ dashboards, WasBoard s x.docs ∧ Chosen x.notification := by
      rcases hdashboards with rfl | ⟨d, x, hx, rfl⟩
      · exact h.dashboards
      · exact Calls.forall_mem_set h.dashboards (h.dashboards x (List.mem_of_getElem? hx))
    refine ⟨rows_write hrows hwrite, fun x hx => ⟨(hall x hx).1.mono hpre, (hall x hx).2⟩,
      fun p hp => ?_, Calls.forall_mem_eraseIdx h.calls, Calls.forall_mem_concat h.performed ?_⟩
    · obtain ⟨docs, hdocs, he⟩ := h.panels p hp
      exact ⟨docs, hdocs.mono hpre, he⟩
    · cases w with
      | add docId data =>
        obtain ⟨d, he⟩ := hw docId data rfl
        exact h.calls c (List.mem_of_getElem? hc) d data he
      | update | delete => trivial
  | failed => exact ⟨h.rows, h.dashboards, h.panels, Calls.forall_mem_eraseIdx h.calls, h.performed⟩
  | panelOpened =>
    exact ⟨h.rows, h.dashboards, Calls.forall_mem_concat h.panels ⟨[], wasBoard_nil s, rfl⟩, h.calls,
      h.performed⟩
  | panelSnapped =>
    exact ⟨h.rows, h.dashboards, Calls.forall_mem_set h.panels ⟨_, h.wasBoard_listing, rfl⟩, h.calls,
      h.performed⟩
  | panelClosed =>
    exact ⟨h.rows, h.dashboards, Calls.forall_mem_eraseIdx h.panels, h.calls, h.performed⟩

theorem inv_installed : Inv installed := by
  refine ⟨⟨[], fun e => ?_, List.Pairwise.nil, fun _ h => absurd h List.not_mem_nil, rfl⟩,
    Calls.forall_mem_of_nil rfl, Calls.forall_mem_of_nil rfl, Calls.forall_mem_of_nil rfl,
    Calls.forall_mem_of_nil rfl⟩
  exact iff_of_false List.not_mem_nil fun h => by cases h

/-- **In every run the notifications are listed as the writes leave them**, the newest first, however
the writes of all dashboards are interleaved. -/
theorem listed (as : List Action) : Always step Listed installed as :=
  always_of_keeps (fun _ _ _ h hs => inv_step h hs)
    (fun _ h => ⟨let ⟨_, hrows⟩ := h.rows; listing_eq hrows, fun x hx => (h.dashboards x hx).1, h.panels⟩)
    as inv_installed

/-- No option is the name of a colour or an icon of the panel. -/
theorem drawn_of_chosen {n : Notification} (h : Chosen n) :
    parseColor n.color = .grey ∧ getIconFromName n.icon = .notifications ∧
      (n.icon, cardIcon n) ∈ iconMap := by
  have hcolors : ∀ color ∈ colorOptions, parseColor color = .grey := by decide
  have hicons : ∀ icon ∈ iconOptions, getIconFromName icon = .notifications ∧
      (icon, (iconMap.lookup icon).getD .notifications) ∈ iconMap := by decide
  exact ⟨hcolors _ h.1, hicons _ h.2⟩

/-- **In every run a panel draws every notification in grey and with the same icon**: the form offers
Turkish names, and the panel knows English ones. -/
theorem drawn (as : List Action) : Always step Drawn installed as := by
  refine always_of_keeps (fun _ _ _ h hs => inv_step h hs) (fun s h p hp n hn => ?_) as inv_installed
  obtain ⟨docs, ⟨before, hpre, rfl⟩, rfl⟩ := h.panels p hp
  obtain ⟨e, he, rfl⟩ := List.mem_map.mp hn
  exact drawn_of_chosen (chosen_of_mem_board (fun w hw => h.performed w (hpre.subset hw)) e he)

end KamuSinavi.Notifications
