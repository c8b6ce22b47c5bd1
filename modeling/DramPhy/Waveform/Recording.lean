import DramPhy.Waveform.Event

/-! Recordings: computations that emit waveform events until they end or a fault
stops them. What was emitted before a fault stays. -/

namespace DramPhy

structure Recording (α : Type) where
  events : List WaveEvent
  result : Checked α

instance : Monad Recording where
  pure a := ⟨[], .ok a⟩
  bind m f :=
    match m.result with
    | .ok a => ⟨m.events ++ (f a).events, (f a).result⟩
    | .error e => ⟨m.events, .error e⟩

def Recording.emit (e : WaveEvent) : Recording Unit := ⟨[e], .ok ()⟩

/-- A checked computation, which emits nothing. -/
def Recording.ofChecked {α : Type} (x : Checked α) : Recording α := ⟨[], x⟩

end DramPhy
