import HitTest.Main
import HitTest.Proofs.Exact.Area
import HitTest.Proofs.Exact.Barycentric
import HitTest.Proofs.Exact.Culling
import HitTest.Proofs.Exact.Plane
import HitTest.Proofs.Exact.SphereGrowth
import HitTest.Proofs.Exact.SphereLine
import HitTest.Proofs.Exact.SpherePair
import HitTest.Proofs.Exact.TriangleLine
import HitTest.Proofs.Query.Conditioning
import HitTest.Proofs.Query.Empty
import HitTest.Proofs.Query.Extension
import HitTest.Proofs.Query.Growth
import HitTest.Proofs.Query.Overlap
import HitTest.Proofs.Query.Radius
import HitTest.Proofs.Query.Range
import HitTest.Proofs.Query.Reported
import HitTest.Proofs.Query.Start
import HitTest.Proofs.Query.Symmetry
import HitTest.Proofs.Random.Cycle
import HitTest.Proofs.Run.Log
import HitTest.Proofs.Run.Outcome
import HitTest.Proofs.Run.Plan
import HitTest.Proofs.Run.Replay
import HitTest.Proofs.Run.Settings
import HitTest.Proofs.Run.Threshold
import HitTest.Proofs.Run.Tries
import HitTest.Proofs.Shape.Corners
import HitTest.Proofs.Shape.Enclosure
import HitTest.Proofs.Shape.Grown
import HitTest.Proofs.Shape.NearestPoint
import HitTest.Proofs.Vector.Perpendicular
import HitTest.Proofs.Vector.Tolerance
import HitTest.Query.Any
