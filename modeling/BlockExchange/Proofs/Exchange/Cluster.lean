import BlockExchange.Exchange.Cluster
import BlockExchange.Proofs.Store.Reading

namespace BlockExchange

namespace Index

theorem transact_of_isReading {ε α : Type} {t : Transaction ε α} (h : t.IsReading) (i : Index) :
    (i.transact t).2 = i := by
  have hstore := Store.transact_of_isReading h i.store
  have htransact : (i.transact t).2 = { i with store := (i.store.transact t).2 } := rfl
  rw [htransact, hstore]

theorem ask_of_isReading (i : Index) (q : Query) (h : q.IsReading) : (i.ask q).2 = i :=
  i.transact_of_isReading ((Transaction.isReading_ask q h).mapError _)

theorem index_localState (i : Index) : i.localState.2 = i := by
  apply transact_of_isReading
  apply Transaction.IsReading.bind
  · exact (Transaction.isReading_ask .epoch trivial).mapError _
  · intro epoch
    apply Transaction.IsReading.bind
    · exact (Transaction.isReading_ask .sequence trivial).mapError _
    · exact fun _ => trivial

end Index

namespace Cluster

theorem index_buildFolders (c : Configuration) (peer : DeviceId) (peerName : String)
    (state : UInt64 × Int) (folders : List SharedFolder) (i : Index) :
    (buildFolders c peer peerName state folders i).2 = i := by
  induction folders with
  | nil => rfl
  | cons f rest ih =>
    have hask : (i.ask (.marker f.id peer)).2 = i := i.ask_of_isReading _ trivial
    rw [buildFolders]
    split
    · rename_i heq
      rw [heq] at hask
      exact hask
    · rename_i heq
      rw [heq] at hask
      dsimp only at hask ⊢
      rw [hask, ih]

theorem index_build (c : Configuration) (peer : DeviceId) (peerName : String) (i : Index) :
    (build c peer peerName i).2 = i := by
  have hstate := i.index_localState
  rw [build]
  split
  · rename_i heq
    rw [heq] at hstate
    exact hstate
  · rename_i heq
    rw [heq] at hstate
    dsimp only at hstate
    rw [index_buildFolders, hstate]

end Cluster

end BlockExchange
