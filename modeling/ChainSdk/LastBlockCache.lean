/-
The last-block cache of the executor does not show: what `CreateBlock` takes from it is what it
would read from the store.

The cache is filled at a start, from the block of the loaded state, and by a commit, from the
variables of the call. Neither a replay nor a call that fails moves the height it belongs to.
-/
import ChainSdk.ProducerAgreement
import ChainSdk.StoreHistories

namespace ChainSdk

open ProducerNode

open Executor Store

section

variable {genesis : Genesis} {c : Codec} {n : ProducerNode}

theorem ProducerNode.Records.cachesTip_produce (h : n.Records genesis c)
    (htip : n.executor.CachesTip) (inp : ProduceInput) :
    (n.step (.produce inp)).executor.CachesTip := by
  dsimp only [ProducerNode.step]
  by_cases hrun : n.running = true
  swap
  · rw [if_neg hrun]
    exact htip
  rw [if_pos hrun]
  dsimp only
  -- a call that commits nothing leaves the cache, the blocks and the height
  have hkeeps : ∀ {store : Store}, store.height = n.executor.store.height →
      store.blocks = n.executor.store.blocks →
      Kept { n.executor with store := store } (n.executor.produceBlock inp).2.1 →
      (n.executor.produceBlock inp).2.1.CachesTip := by
    intro store hsame hblocks hkept info hinfo hge
    rw [hkept.config_eq, hkept.store_eq] at hge ⊢
    dsimp only at hge ⊢
    rw [hsame] at hge ⊢
    rw [hblocks]
    exact htip info (hkept.lastBlockInfo_eq.symm.trans hinfo) hge
  rcases n.executor.produceBlock_cases inp with
    ⟨hkept, -⟩ | ⟨header, data, store, hobtained, -, -, ⟨hkept, -⟩ | ⟨root, signature, hsealed⟩⟩
  · exact hkeeps rfl rfl hkept
  · obtain ⟨-, hsame, hblocks, -⟩ := hobtained.next
    exact hkeeps hsame hblocks hkept
  · obtain ⟨hnext, hsame, -, -⟩ := hobtained.next
    obtain ⟨-, -, hheight⟩ := h.running hrun
    have hsigned : ({ header with signature := signature } : SignedHeader).header.height =
        store.height + 1 := by
      rw [hsame, ← hheight]
      exact hnext
    intro info hinfo _
    obtain rfl := Option.some.inj (hsealed.lastBlockInfo_eq.symm.trans hinfo)
    rw [hsealed.config_eq, hsealed.store_eq, commitBatch_eq hsigned]
    exact ⟨_, Function.update_self _ _ _, rfl⟩

theorem ProducerNode.Records.cachesTip_start (hpos : 0 < genesis.initialHeight)
    (h : n.Records genesis c) (htip : n.executor.CachesTip) (inp : StartInput) :
    (n.step (.start inp)).executor.CachesTip := by
  dsimp only [ProducerNode.step]
  rcases n.executor.initializeState_spec inp with ⟨-, hsame⟩ | ⟨st, hload, hrest⟩
  · rcases hsame with heq | ⟨st, -, heq⟩
    all_goals
      rw [heq]
      exact htip
  · have hloads := loadState_loads hload
    rw [h.genesis_eq] at hloads
    obtain ⟨hs, -, hheight, hnone⟩ := recorded_of_loads hpos h.recorded_or_blank hloads
    obtain ⟨target, heq⟩ := hrest hnone
    rw [heq]
    refine warmCaches_cachesTip ?_ ?_ hheight (syncToHeight_frame _ _ _ _ _)
    · rw [h.genesis_eq]
      exact hpos
    · rw [h.genesis_eq]
      exact hs.stored_iff

theorem ProducerNode.Records.cachesTip_step (hpos : 0 < genesis.initialHeight)
    (h : n.Records genesis c) (htip : n.executor.CachesTip) (ev : ProducerEvent) :
    (n.step ev).executor.CachesTip := by
  cases ev with
  | produce inp => exact h.cachesTip_produce htip inp
  | start inp => exact h.cachesTip_start hpos htip inp
  | crash => exact fun info hinfo => absurd hinfo (by simp [ProducerNode.step, new])
  | stop headerDeleted dataDeleted =>
    dsimp only [ProducerNode.step]
    unfold stop deletePendingBlock
    split_ifs <;> exact htip

end

/-- In every state a producer comes to by starts, calls, crashes and stops, on a disk that nodes of
its chain have written: once it runs, and for a height above the first, a filled last-block cache
holds header hash, data hash and signature of the block below, and `CreateBlock` answers as if it
were empty. -/
theorem last_block_cache_transparent (config : ExecutorConfig)
    (hpos : 0 < config.genesis.initialHeight) (store : Store)
    (hstore : store.OfNode config.genesis config.codec) (events : List ProducerEvent)
    (n : ProducerNode) (hn : n = events.foldl step ⟨new config store, false⟩)
    (hrun : n.running = true) (hlater : config.genesis.initialHeight < n.executor.newHeight)
    (info : LastBlockInfo) (hinfo : n.executor.lastBlockInfo = some info) :
    (∃ block, n.executor.store.blocks (n.executor.newHeight - 1) = some block ∧
      info = block.info config.codec) ∧
    ∀ batchData inp, n.executor.createBlock n.executor.newHeight batchData inp =
      createBlock { n.executor with lastBlockInfo := none } n.executor.newHeight batchData inp := by
  obtain ⟨hrecords, htip⟩ : n.Records config.genesis config.codec ∧ n.executor.CachesTip := by
    rw [hn]
    refine Runs.foldl_invariant step
      (fun n => n.Records config.genesis config.codec ∧ n.executor.CachesTip) (fun _ _ => True)
      (fun n ev hn _ => ⟨hn.1.step hpos ev, hn.1.cachesTip_step hpos hn.2 ev⟩) ⟨?_, ?_⟩
      (fun _ _ => trivial)
    · exact ⟨rfl, rfl, hstore.recorded hpos, fun hrun => absurd hrun Bool.false_ne_true⟩
    · exact fun info hinfo => absurd hinfo (by simp [new])
  obtain ⟨-, -, hheight⟩ := hrecords.running hrun
  have hnew : n.executor.newHeight = n.executor.store.height + 1 := by
    unfold newHeight
    rw [hheight]
  obtain ⟨block, hblock, rfl⟩ := htip info hinfo (by rw [hrecords.genesis_eq]; omega)
  rw [hnew, Nat.add_sub_cancel]
  refine ⟨⟨block, hblock, by rw [hrecords.codec_eq]⟩, fun batchData inp => ?_⟩
  have hlast : n.executor.lastBlock (n.executor.store.height + 1) batchData =
      lastBlock { n.executor with lastBlockInfo := none } (n.executor.store.height + 1)
        batchData := by
    unfold lastBlock
    dsimp only
    rw [hinfo, Nat.add_sub_cancel, hblock]
    rfl
  unfold createBlock
  rw [hlast]
  rfl

theorem last_block_cache_transparent_on_sample :
    let n := [toyStart, .produce smallInput].foldl step
      ⟨new (smallProducer 1) Store.empty, false⟩
    n.executor.lastBlockInfo.isSome ∧ ∀ batchData inp, n.executor.createBlock 2 batchData inp =
      createBlock { n.executor with lastBlockInfo := none } 2 batchData inp := by
  intro n
  have hsome : n.executor.lastBlockInfo.isSome := by decide +kernel
  refine ⟨hsome, ?_⟩
  obtain ⟨info, hinfo⟩ := Option.isSome_iff_exists.mp hsome
  have hnew : n.executor.newHeight = 2 := by decide +kernel
  have htransparent := (last_block_cache_transparent (smallProducer 1) (by decide) Store.empty
    .empty [toyStart, .produce smallInput] n rfl (by decide +kernel)
    (by rw [hnew]; decide) info hinfo).2
  rw [hnew] at htransparent
  exact htransparent

end ChainSdk
