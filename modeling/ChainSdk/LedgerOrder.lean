/-
When the heights of the submission ledger never go back.

A call of `setLastSubmittedHeight` that has swapped the height in memory has still to write it.
-/
import ChainSdk.LedgerSafety

namespace ChainSdk

open List Option Watermark

/-! ## Calls that are about to write -/

/-- The submission is about to write a height. -/
def SubmitPc.Writes {α : Type} : SubmitPc α → ℕ → Prop
  | .setting pc _ _, new => pc.Writes new
  | _, _ => False

/-- The submission is about to swap the height, if it is the given one. -/
def SubmitPc.Swaps {α : Type} : SubmitPc α → ℕ → Prop
  | .setting (.swapping _ lsh) _ _, height => lsh = height
  | _, _ => False

/-- The call is about to write a height. -/
def AdvancePc.Writes : AdvancePc → ℕ → Prop
  | .setting pc _ _, new => pc.Writes new
  | _, _ => False

/-- The call is about to swap the height, if it is the given one. -/
def AdvancePc.Swaps : AdvancePc → ℕ → Prop
  | .setting (.swapping _ lsh) _ _, height => lsh = height
  | _, _ => False

/-- A swap is only tried to a greater height. -/
def SetPc.Rising : SetPc → Prop
  | .swapping new lsh => lsh < new
  | _ => True

def SubmitPc.Rising {α : Type} : SubmitPc α → Prop
  | .setting pc _ _ => pc.Rising
  | _ => True

def AdvancePc.Rising : AdvancePc → Prop
  | .setting pc _ _ => pc.Rising
  | _ => True

/-! ## One ledger -/

section

variable {α : Type} {pb pb' : PendingBase α} {writes others : ℕ → Prop}

/-- The height in the datastore is the one in memory, or about to become it. -/
structure KeepsOrder (writes : ℕ → Prop) (pb : PendingBase α) : Prop where
  writing : ∀ new, writes new → new = pb.lastHeight
  written : (∀ new, ¬ writes new) → pb.metadata.getD 0 = pb.lastHeight
  behind : pb.metadata.getD 0 ≤ pb.lastHeight

structure Risen (pb pb' : PendingBase α) : Prop where
  lastHeight : pb.lastHeight ≤ pb'.lastHeight
  metadata : pb.metadata.getD 0 ≤ pb'.metadata.getD 0

theorem Risen.refl (pb : PendingBase α) : Risen pb pb := ⟨le_rfl, le_rfl⟩

theorem Risen.trans {pb'' : PendingBase α} (h : Risen pb pb') (h' : Risen pb' pb'') :
    Risen pb pb'' :=
  ⟨h.lastHeight.trans h'.lastHeight, h.metadata.trans h'.metadata⟩

theorem KeepsOrder.congr {writes' : ℕ → Prop} (hpb : KeepsOrder writes pb)
    (hwrites : ∀ new, writes' new ↔ writes new) : KeepsOrder writes' pb :=
  ⟨fun new hnew => hpb.writing new ((hwrites new).mp hnew),
    fun hnone => hpb.written (fun new hnew => hnone new ((hwrites new).mpr hnew)), hpb.behind⟩

theorem KeepsOrder.setStep {pc : SetPc}
    (hpb : KeepsOrder (fun new => pc.Writes new ∨ others new) pb) (hrising : pc.Rising)
    {written : Bool} (hwritten : ∀ new, pc.Writes new → written = true)
    (hswap : ∀ new lsh, pc = .swapping new lsh → lsh = pb.lastHeight → ∀ w, ¬ others w) :
    KeepsOrder (fun new => (∃ pc', (pb.setStep written pc).2 = some pc' ∧ pc'.Writes new) ∨
        others new) (pb.setStep written pc).1 ∧
      Risen pb (pb.setStep written pc).1 ∧
      ∀ pc', (pb.setStep written pc).2 = some pc' → pc'.Rising := by
  obtain ⟨hwriting, hsame, hbehind⟩ := hpb
  unfold PendingBase.setStep
  cases pc with
  | loading new =>
    refine ⟨⟨fun w hw => hwriting w ?_, fun hnone => hsame fun w hw => hnone w ?_, hbehind⟩,
      .refl pb, fun pc' hpc' => ?_⟩
    · rcases hw with ⟨pc', hpc', hw⟩ | hw
      · dsimp only at hpc'
        split_ifs at hpc'
        rw [← some.inj hpc'] at hw
        exact absurd hw (by simp [SetPc.Writes])
      · exact .inr hw
    · exact .inr (hw.resolve_left (by simp [SetPc.Writes]))
    · dsimp only at hpc'
      split_ifs at hpc' with hlt
      rw [← some.inj hpc']
      exact hlt
  | swapping new lsh =>
    dsimp only
    split_ifs with heq
    · -- nobody else is about to write, so that this call is the only one from here
      have hnone := hswap new lsh rfl heq.symm
      have hlt : lsh < new := hrising
      refine ⟨⟨fun w hw => ?_, fun hno => ?_, ?_⟩, ⟨?_, le_rfl⟩, fun pc' hpc' => ?_⟩
      · rcases hw with ⟨pc', hpc', hw⟩ | hw
        · rw [← some.inj hpc'] at hw
          exact (SetPc.writing.inj hw).symm
        · exact absurd hw (hnone w)
      · exact absurd (.inl ⟨_, rfl, rfl⟩) (hno new)
      · show pb.metadata.getD 0 ≤ new
        omega
      · show pb.lastHeight ≤ new
        omega
      · rw [← some.inj hpc']
        trivial
    · refine ⟨⟨fun w hw => hwriting w ?_, fun hnone => hsame fun w hw => hnone w ?_, hbehind⟩,
        .refl pb, fun pc' hpc' => absurd hpc' (by simp)⟩
      · exact .inr (hw.resolve_left (by simp))
      · exact .inr (hw.resolve_left (by simp [SetPc.Writes]))
  | writing new =>
    have hnew : new = pb.lastHeight := hwriting new (.inl rfl)
    dsimp only
    rw [if_pos (hwritten new rfl)]
    refine ⟨⟨fun w hw => hwriting w (.inr (hw.resolve_left (by simp))), fun _ => hnew, ?_⟩,
      ⟨le_rfl, ?_⟩, fun pc' hpc' => absurd hpc' (by simp)⟩
    · exact hnew.le
    · exact hbehind.trans hnew.ge

theorem start_heights (pb : PendingBase α) (storeHeight : ℕ)
    (fetch : ℕ → Except PendingListError α) (keep : α → Bool) (inp : SubmitInput α) :
    (SubmitPc.start pb storeHeight fetch keep inp).1.lastHeight = pb.lastHeight ∧
      (SubmitPc.start pb storeHeight fetch keep inp).1.metadata = pb.metadata ∧
      (∀ new, ¬ (SubmitPc.start pb storeHeight fetch keep inp).2.Writes new) ∧
      (SubmitPc.start pb storeHeight fetch keep inp).2.Rising := by
  unfold SubmitPc.start
  dsimp only
  obtain ⟨hlast, hmetadata⟩ := pb.getPending_heights
    (if inp.heightRead then some storeHeight else none)
    (fun h => if inp.readable h then fetch h else .error (.unreadable h))
  rcases hpending : pb.getPending (if inp.heightRead then some storeHeight else none)
    (fun h => if inp.readable h then fetch h else .error (.unreadable h)) with ⟨e | pending, pb'⟩
  all_goals
    rw [hpending] at hlast hmetadata
    dsimp only
  · exact ⟨hlast, hmetadata, fun _ => id, trivial⟩
  split_ifs
  · exact ⟨hlast, hmetadata, fun _ => id, trivial⟩
  split
  · exact ⟨hlast, hmetadata, fun _ => id, trivial⟩
  split_ifs
  · exact ⟨hlast, hmetadata, fun _ => id, trivial⟩
  split <;> exact ⟨hlast, hmetadata, fun _ => id, trivial⟩

theorem afterCallback_quiet (rest : List α) (attempt : ℕ) :
    (∀ new, ¬ (SubmitPc.afterCallback rest attempt).Writes new) ∧
      (SubmitPc.afterCallback rest attempt).Rising := by
  unfold SubmitPc.afterCallback
  split_ifs <;> exact ⟨fun _ => id, trivial⟩

theorem attempt_quiet (itemHeight : α → ℕ) (maxAttempts : ℕ) (items : List α) (attempt : ℕ)
    (inp : SubmitInput α) :
    (∀ new, ¬ (SubmitPc.attempt itemHeight maxAttempts items attempt inp).1.Writes new) ∧
      (SubmitPc.attempt itemHeight maxAttempts items attempt inp).1.Rising := by
  unfold SubmitPc.attempt
  split_ifs
  · exact ⟨fun _ => id, trivial⟩
  dsimp only
  split
  · exact afterCallback_quiet _ _
  · exact ⟨fun new hnew => absurd hnew (by simp [SubmitPc.Writes, SetPc.Writes]), trivial⟩

theorem KeepsOrder.submitStep {pc : SubmitPc α}
    (hpb : KeepsOrder (fun new => pc.Writes new ∨ others new) pb) (hrising : pc.Rising)
    {inp : SubmitInput α} (hwritten : ∀ new, pc.Writes new → inp.written = true)
    (hswap : pc.Swaps pb.lastHeight → ∀ w, ¬ others w) (itemHeight : α → ℕ)
    (maxAttempts storeHeight : ℕ) (fetch : ℕ → Except PendingListError α) (keep : α → Bool) :
    let next := ChainSdk.submitStep itemHeight maxAttempts storeHeight fetch keep pb inp pc
    KeepsOrder (fun new => next.2.1.Writes new ∨ others new) next.1 ∧ Risen pb next.1 ∧
      next.2.1.Rising := by
  -- a step without a write to come, before and after
  have hquiet : ∀ {pb' : PendingBase α} {pc' : SubmitPc α}, (∀ new, ¬ pc.Writes new) →
      pb'.lastHeight = pb.lastHeight → pb'.metadata = pb.metadata →
      (∀ new, ¬ pc'.Writes new) → KeepsOrder (fun new => pc'.Writes new ∨ others new) pb' ∧
        Risen pb pb' := by
    intro pb' pc' hpc hlast hmetadata hpc'
    have hsame : KeepsOrder (fun new => pc'.Writes new ∨ others new) pb :=
      hpb.congr (fun new => by simp [hpc new, hpc' new])
    obtain ⟨hwriting, hsynced, hbehind⟩ := hsame
    constructor
    · constructor
      · rw [hlast]
        exact hwriting
      · rw [hlast, hmetadata]
        exact hsynced
      · rw [hlast, hmetadata]
        exact hbehind
    · exact ⟨hlast.ge, by rw [hmetadata]⟩
  unfold ChainSdk.submitStep
  cases pc with
  | idle =>
    obtain ⟨hlast, hmetadata, hwrites, hrises⟩ :=
      start_heights pb storeHeight fetch keep inp
    obtain ⟨hnext, hrisen⟩ := hquiet (fun _ => id) hlast hmetadata hwrites
    exact ⟨hnext, hrisen, hrises⟩
  | attempting items attempt =>
    obtain ⟨hwrites, hrises⟩ := attempt_quiet itemHeight maxAttempts items attempt inp
    obtain ⟨hnext, hrisen⟩ := hquiet (fun _ => id) rfl rfl hwrites
    exact ⟨hnext, hrisen, hrises⟩
  | setting pc rest attempt =>
    obtain ⟨hnext, hrisen, hrises⟩ := KeepsOrder.setStep hpb hrising hwritten
      (fun new lsh heq hlsh => hswap (by rw [heq]; exact hlsh))
    dsimp only
    rcases hset : pb.setStep inp.written pc with ⟨pb', _ | pc'⟩
    all_goals
      rw [hset] at hnext hrisen hrises
    · obtain ⟨hwrites, hquietly⟩ := afterCallback_quiet rest attempt
      exact ⟨hnext.congr (fun new => by simp [hwrites new]), hrisen, hquietly⟩
    · exact ⟨hnext.congr (fun new => by simp [SubmitPc.Writes]), hrisen, hrises pc' rfl⟩

end

namespace LedgerNode

variable {n : LedgerNode}

theorem inStep_countStep {others : ℕ → Prop} {pc : AdvancePc}
    (hpb : KeepsOrder (fun new => pc.Writes new ∨ others new) n.data) (hrising : pc.Rising)
    {inp : AdvanceInput} (hwritten : ∀ new, pc.Writes new → inp.written = true)
    (hswap : pc.Swaps n.data.lastHeight → ∀ w, ¬ others w) :
    KeepsOrder (fun new => (n.countStep inp pc).2.Writes new ∨ others new) (n.countStep inp pc).1 ∧
      Risen n.data (n.countStep inp pc).1 ∧ (n.countStep inp pc).2.Rising := by
  have hquiet : ∀ {pc' : AdvancePc}, (∀ new, ¬ pc.Writes new) → (∀ new, ¬ pc'.Writes new) →
      KeepsOrder (fun new => pc'.Writes new ∨ others new) n.data :=
    fun hpc hpc' => hpb.congr (fun new => by simp [hpc new, hpc' new])
  have hloading : ∀ height h sh new,
      ¬ (AdvancePc.setting (.loading height) h sh).Writes new := by
    simp [AdvancePc.Writes, SetPc.Writes]
  unfold LedgerNode.countStep
  cases pc with
  | idle =>
    split_ifs <;> exact ⟨hquiet (fun _ => id) (fun _ => id), .refl _, trivial⟩
  | started storeHeight => exact ⟨hquiet (fun _ => id) (fun _ => id), .refl _, trivial⟩
  | looping height storeHeight =>
    dsimp only
    split_ifs
    · exact ⟨hquiet (fun _ => id) (fun _ => id), .refl _, trivial⟩
    · exact ⟨hquiet (fun _ => id) (fun _ => id), .refl _, trivial⟩
    split
    · exact ⟨hquiet (fun _ => id) (fun _ => id), .refl _, trivial⟩
    split_ifs
    · exact ⟨hquiet (fun _ => id) (fun _ => id), .refl _, trivial⟩
    · exact ⟨hquiet (fun _ => id) (hloading _ _ _), .refl _, trivial⟩
  | setting pc height storeHeight =>
    obtain ⟨hnext, hrisen, hrises⟩ := KeepsOrder.setStep hpb hrising hwritten
      (fun new lsh heq hlsh => hswap (by rw [heq]; exact hlsh))
    dsimp only
    rcases hset : n.data.setStep inp.written pc with ⟨pb', _ | pc'⟩
    all_goals
      rw [hset] at hnext hrisen hrises
    · exact ⟨hnext.congr (fun new => by simp [AdvancePc.Writes]), hrisen, trivial⟩
    · exact ⟨hnext.congr (fun new => by simp [AdvancePc.Writes]), hrisen, hrises pc' rfl⟩

/-! ## The condition -/

/-- Some goroutine is about to write a height of the data to the datastore. -/
def DataWrites (n : LedgerNode) (new : ℕ) : Prop :=
  n.submittingData.Writes new ∨ ∃ call, (n.counting call).Writes new

/-- Writes to the datastore succeed; a height of the data is swapped only when no other call
has one still to write; and the process does not end while one has. -/
def Event.Orderly (n : LedgerNode) : Event → Prop
  | .produce _ _ => True
  | .submitHeaders inp => ∀ new, n.submittingHeaders.Writes new → inp.written = true
  | .submitData inp =>
    (∀ new, n.submittingData.Writes new → inp.written = true) ∧
      (n.submittingData.Swaps n.data.lastHeight → ∀ new, ¬ n.DataWrites new)
  | .numPendingData call inp =>
    (∀ new, (n.counting call).Writes new → inp.written = true) ∧
      ((n.counting call).Swaps n.data.lastHeight → ∀ new, ¬ n.DataWrites new)
  | .restart => ∀ new, ¬ n.submittingHeaders.Writes new ∧ ¬ n.DataWrites new

structure LedgerKeepsOrder (n : LedgerNode) : Prop where
  headers : KeepsOrder n.submittingHeaders.Writes n.headers
  data : KeepsOrder n.DataWrites n.data
  submittingHeaders : n.submittingHeaders.Rising
  submittingData : n.submittingData.Rising
  counting : ∀ call, (n.counting call).Rising

def Rises (n n' : LedgerNode) : Prop := Risen n.headers n'.headers ∧ Risen n.data n'.data

theorem keepsOrder_init {α : Type} {writes : ℕ → Prop} {pb : PendingBase α}
    (hpb : KeepsOrder writes pb) (hnone : ∀ new, ¬ writes new) :
    KeepsOrder (fun _ => False) (PendingBase.init pb.metadata : PendingBase α) ∧
      Risen pb (.init pb.metadata) :=
  ⟨⟨fun _ => False.elim, fun _ => rfl, le_rfl⟩, (hpb.written hnone).ge, le_rfl⟩

theorem LedgerKeepsOrder.submitHeaders (hn : n.LedgerKeepsOrder) {inp : SubmitInput SignedHeader}
    (horderly : (Event.submitHeaders inp).Orderly n) :
    (n.submitHeaders inp).LedgerKeepsOrder ∧ n.Rises (n.submitHeaders inp) := by
  obtain ⟨hnext, hrisen, hrises⟩ := KeepsOrder.submitStep
    (hn.headers.congr (fun new => iff_of_eq (or_false _))) hn.submittingHeaders horderly
    (fun _ _ => id) (fun header => header.header.height) n.maxAttempts n.store.height
    (fetchSignedHeader n.store) (fun _ => true)
  exact ⟨⟨hnext.congr (fun new => (iff_of_eq (or_false _)).symm), hn.data, hrises,
    hn.submittingData, hn.counting⟩, hrisen, .refl _⟩

theorem LedgerKeepsOrder.submitData (hn : n.LedgerKeepsOrder) {inp : SubmitInput Data}
    (horderly : (Event.submitData inp).Orderly n) :
    (n.submitData inp).LedgerKeepsOrder ∧ n.Rises (n.submitData inp) := by
  obtain ⟨hnext, hrisen, hrises⟩ := KeepsOrder.submitStep hn.data hn.submittingData horderly.1
    (fun hswap w hw => horderly.2 hswap w (.inr hw)) DaRetriever.dataHeight n.maxAttempts
    n.store.height (fetchData n.store) nonEmpty
  exact ⟨⟨hn.headers, hnext, hn.submittingHeaders, hrises, hn.counting⟩, .refl _, hrisen⟩

theorem LedgerKeepsOrder.numPendingData (hn : n.LedgerKeepsOrder) {call : ℕ} {inp : AdvanceInput}
    (horderly : (Event.numPendingData call inp).Orderly n) :
    (n.numPendingData call inp).LedgerKeepsOrder ∧ n.Rises (n.numPendingData call inp) := by
  -- this call is told apart from the others
  let others : ℕ → Prop := fun new =>
    n.submittingData.Writes new ∨ ∃ other, other ≠ call ∧ (n.counting other).Writes new
  have hothers : ∀ new, others new → n.DataWrites new := by
    rintro new (hnew | ⟨other, -, hnew⟩)
    · exact .inl hnew
    · exact .inr ⟨other, hnew⟩
  have hsplit : ∀ new, (n.counting call).Writes new ∨ others new ↔ n.DataWrites new := by
    refine fun new => ⟨fun h => h.elim (fun hnew => .inr ⟨call, hnew⟩) (hothers new), ?_⟩
    rintro (hnew | ⟨other, hnew⟩)
    · exact .inr (.inl hnew)
    · by_cases hother : other = call
      · exact .inl (hother ▸ hnew)
      · exact .inr (.inr ⟨other, hother, hnew⟩)
  obtain ⟨hnext, hrisen, hrises⟩ := inStep_countStep (hn.data.congr hsplit) (hn.counting call)
    horderly.1 (fun hswap w hw => horderly.2 hswap w (hothers w hw))
  have hcall : (n.numPendingData call inp).counting call = (n.countStep inp (n.counting call)).2 :=
    Function.update_self _ _ _
  have hother : ∀ other ≠ call, (n.numPendingData call inp).counting other = n.counting other :=
    fun other hne => Function.update_of_ne hne _ _
  refine ⟨⟨hn.headers, hnext.congr (fun new => ?_), hn.submittingHeaders, hn.submittingData,
    fun other => ?_⟩, .refl _, hrisen⟩
  · constructor
    · rintro (hnew | ⟨other, hnew⟩)
      · exact .inr (.inl hnew)
      · by_cases hne : other = call
        · rw [hne, hcall] at hnew
          exact .inl hnew
        · rw [hother other hne] at hnew
          exact .inr (.inr ⟨other, hne, hnew⟩)
    · rintro (hnew | hnew | ⟨other, hne, hnew⟩)
      · exact .inr ⟨call, by rw [hcall]; exact hnew⟩
      · exact .inl hnew
      · exact .inr ⟨other, by rw [hother other hne]; exact hnew⟩
  · by_cases hne : other = call
    · rw [hne, hcall]
      exact hrises
    · rw [hother other hne]
      exact hn.counting other

theorem LedgerKeepsOrder.step (hn : n.LedgerKeepsOrder) {e : Event} (horderly : e.Orderly n) :
    (n.step e).LedgerKeepsOrder ∧ n.Rises (n.step e) := by
  cases e with
  | produce header data =>
    show (n.produce header data).LedgerKeepsOrder ∧ n.Rises (n.produce header data)
    unfold LedgerNode.produce
    split_ifs
    · exact ⟨⟨hn.headers, hn.data, hn.submittingHeaders, hn.submittingData, hn.counting⟩,
        .refl _, .refl _⟩
    · exact ⟨hn, .refl _, .refl _⟩
  | submitHeaders inp => exact hn.submitHeaders horderly
  | submitData inp => exact hn.submitData horderly
  | numPendingData call inp => exact hn.numPendingData horderly
  | restart =>
    obtain ⟨hheaders, hrisenHeaders⟩ := keepsOrder_init hn.headers (fun new => (horderly new).1)
    obtain ⟨hdata, hrisenData⟩ := keepsOrder_init hn.data (fun new => (horderly new).2)
    have hquiet : ∀ new, n.restart.DataWrites new ↔ False := by
      refine fun new => ⟨?_, False.elim⟩
      rintro (hnew | ⟨_, hnew⟩)
      · exact hnew
      · exact hnew
    exact ⟨⟨hheaders, hdata.congr hquiet, trivial, trivial, fun _ => trivial⟩,
      hrisenHeaders, hrisenData⟩

/-! ## Whole runs -/

theorem fresh_keepsOrder (initialHeight maxAttempts : ℕ) :
    (fresh initialHeight maxAttempts).LedgerKeepsOrder := by
  refine ⟨⟨fun _ => False.elim, fun _ => rfl, le_rfl⟩, ⟨?_, fun _ => rfl, le_rfl⟩, trivial,
    trivial, fun _ => trivial⟩
  rintro new (hnew | ⟨_, hnew⟩)
  · exact hnew.elim
  · exact hnew.elim

structure Acknowledged (n : LedgerNode) : Prop where
  headers : ∀ h, 1 ≤ h → h ≤ max n.headers.lastHeight (n.headers.metadata.getD 0) →
    ∃ header, n.store.headerAt h = some header ∧ header ∈ n.ackedHeaders
  data : ∀ h, 1 ≤ h → h ≤ max n.data.lastHeight (n.data.metadata.getD 0) →
    ∃ data, n.store.dataAt h = some data ∧ (data.txs ≠ [] → data ∈ n.ackedData)
  bounded : max (max n.headers.lastHeight (n.headers.metadata.getD 0))
    (max n.data.lastHeight (n.data.metadata.getD 0)) ≤ n.store.height

theorem LedgerSound.acknowledged (hn : LedgerSound 1 n) : n.Acknowledged := by
  have hmark : ∀ {α : Type} {S : Stream α} {item : ℕ → Option α} {pb : PendingBase α},
      BaseSound S item pb → S.Mark (max pb.lastHeight (pb.metadata.getD 0)) := by
    intro α S item pb hpb
    rcases Nat.le_total pb.lastHeight (pb.metadata.getD 0) with hle | hle
    · rw [max_eq_right hle]
      exact hpb.metadata
    · rw [max_eq_left hle]
      exact hpb.lastHeight
  obtain ⟨hheaders, hheadersLe⟩ := hmark hn.headers
  obtain ⟨hdata, hdataLe⟩ := hmark hn.data
  refine ⟨fun h hpos hle => ?_, fun h hpos hle => ?_, max_le hheadersLe hdataLe⟩
  · obtain ⟨block, hblock⟩ := (hn.stored.blocks h).mpr ⟨hpos, hle.trans hheadersLe⟩
    have hheader : n.store.headerAt h = some block.header :=
      headerAt_eq_some.mpr ⟨block, hblock, rfl⟩
    exact ⟨block.header, hheader, hheaders h hle _ hheader⟩
  · obtain ⟨block, hblock⟩ := (hn.stored.blocks h).mpr ⟨hpos, hle.trans hdataLe⟩
    have hstored : n.store.dataAt h = some block.data := dataAt_eq_some.mpr ⟨block, hblock, rfl⟩
    refine ⟨block.data, hstored, fun htxs => hdata h hle _ ⟨hstored, ?_⟩⟩
    simpa [nonEmpty] using htxs

/-- Every run of a chain from height 1, in any interleaving, with any replies of DA and any
number of restarts: both heights are sound, in memory and in the datastore. And in a run whose
steps are orderly none of them ever goes back. -/
theorem submission_ledger_invariant (maxAttempts : ℕ) (events more : List Event) :
    let start := fresh 1 maxAttempts
    (events.foldl step start).Acknowledged ∧
      ((∀ p ∈ Runs.steps step start (events ++ more), p.2.Orderly p.1) →
        (events.foldl step start).Rises ((events ++ more).foldl step start)) := by
  intro start
  refine ⟨(run_sound le_rfl maxAttempts events).acknowledged, fun horderly => ?_⟩
  rw [Runs.steps_append] at horderly
  have hbefore := Runs.foldl_invariant step LedgerKeepsOrder (fun n e => e.Orderly n)
    (fun _ _ hn he => (hn.step he).1) (fresh_keepsOrder 1 maxAttempts)
    (fun p hp => horderly p (mem_append_left _ hp))
  rw [foldl_append]
  -- from here on the state where the run is cut stays below
  refine (Runs.foldl_invariant step
    (fun m => m.LedgerKeepsOrder ∧ (events.foldl step start).Rises m) (fun n e => e.Orderly n) ?_
    ⟨hbefore, .refl _, .refl _⟩
    (fun p hp => horderly p (mem_append_right _ hp))).2
  rintro m e ⟨hm, hheaders, hdata⟩ he
  obtain ⟨hnext, hrisesHeaders, hrisesData⟩ := hm.step he
  exact ⟨hnext, hheaders.trans hrisesHeaders, hdata.trans hrisesData⟩

/-! ## Two calls that meet -/

def ledgerHeader (height : ℕ) : SignedHeader :=
  ⟨⟨height, height, "chain", ⟨0, 0⟩, [], [], [], [], [7], none⟩, [7], ⟨some ⟨0, [7]⟩, [7]⟩⟩

def ledgerData (height : ℕ) (txs : List Tx) : Data := ⟨some ⟨"chain", height, height, []⟩, txs⟩

def twoBlocks : List Event :=
  [.produce (ledgerHeader 1) (ledgerData 1 []), .produce (ledgerHeader 2) (ledgerData 2 [[5]])]

def submitOne {α : Type} : SubmitInput α :=
  ⟨true, fun _ => true, true, fun _ => some [0], false, ⟨.success, 1, 3⟩, true⟩

def countsPastEmpty : List Event := List.replicate 5 (.numPendingData 0 ⟨true, true, true⟩)

def submitsSecond : List Event := List.replicate 5 (.submitData submitOne)

/-- `NumPendingData` is held up before its write while a submission goes through, and the height
in the datastore goes back from 2 to 1; after a restart so does the one in memory. -/
theorem data_height_written_back :
    let run := fun events : List Event => events.foldl step (fresh 1 3)
    let submitted := twoBlocks ++ countsPastEmpty ++ submitsSecond
    let written := submitted ++ [.numPendingData 0 ⟨true, true, true⟩]
    (run submitted).data.metadata = some 2 ∧ (run submitted).data.lastHeight = 2 ∧
      (run written).data.metadata = some 1 ∧
      (run (written ++ [.restart])).data.lastHeight = 1 := by
  decide +kernel

def submitsFirstBlock : List Event :=
  .produce (ledgerHeader 1) (ledgerData 1 [[5]]) ::
    (List.replicate 5 (.submitHeaders submitOne) ++ List.replicate 5 (.submitData submitOne))

theorem submission_ledger_invariant_of_one_block :
    let run := fun events : List Event => events.foldl step (fresh 1 3)
    (run submitsFirstBlock).Acknowledged ∧
      (run submitsFirstBlock).Rises (run (submitsFirstBlock ++ [.restart])) ∧
      (run submitsFirstBlock).headers.metadata = some 1 ∧
      (run submitsFirstBlock).data.metadata = some 1 := by
  intro run
  obtain ⟨hacknowledged, hrises⟩ := submission_ledger_invariant 3 submitsFirstBlock [.restart]
  refine ⟨hacknowledged, hrises ?_, by decide +kernel, by decide +kernel⟩
  -- nobody counts, so that each submission is alone with its ledger
  have hidle := Runs.steps_invariant step (fun n => ∀ call, n.counting call = .idle)
    (fun _ e => e ∈ submitsFirstBlock) (fun n e hn he call => by
      rcases mem_cons.mp he with rfl | he
      · dsimp only [step, produce]
        split_ifs <;> exact hn call
      rcases mem_append.mp he with he | he
      all_goals
        rw [eq_of_mem_replicate he]
        exact hn call)
    (s := fresh 1 3) (fun _ => rfl) (Runs.steps_of_forall fun _ => id)
  rw [Runs.steps_append]
  intro p hp
  rcases mem_append.mp hp with hp | hp
  · have he := Runs.steps_of_forall (C := (· ∈ submitsFirstBlock)) (fun _ => id) p hp
    rcases mem_cons.mp he with he | he
    · rw [he]
      trivial
    rcases mem_append.mp he with he | he
    all_goals rw [eq_of_mem_replicate he]
    · exact fun _ _ => rfl
    · refine ⟨fun _ _ => rfl, fun hswaps new => ?_⟩
      rintro (hwrites | ⟨call, hwrites⟩)
      · rcases hpc : p.1.submittingData with _ | _ | ⟨_ | _ | _, _, _⟩
        all_goals
          rw [hpc] at hswaps hwrites
        all_goals simp [SubmitPc.Swaps, SubmitPc.Writes, SetPc.Writes] at hswaps hwrites
      · rw [hidle p hp call] at hwrites
        exact hwrites
  · rw [mem_singleton.mp hp]
    refine fun new => ⟨id, ?_⟩
    rintro (hwrites | ⟨_, hwrites⟩)
    · exact hwrites
    · exact hwrites

end LedgerNode

end ChainSdk
