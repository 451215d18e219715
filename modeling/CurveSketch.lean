import CurveSketch.Main
import CurveSketch.Sketch.Draft
import CurveSketch.Proofs.Acceptance
import CurveSketch.Proofs.Trials
import CurveSketch.Proofs.Verdict
import CurveSketch.Proofs.Interpolation
import CurveSketch.Proofs.DoubleRounding
import CurveSketch.Proofs.InnerBand
import CurveSketch.Proofs.DoubleOrder
import CurveSketch.Proofs.DoubleArithmetic
import CurveSketch.Proofs.Nearness
import CurveSketch.Proofs.RoundedCells
import CurveSketch.Proofs.Slices
import CurveSketch.Proofs.Overhang
import CurveSketch.Proofs.Climbing
import CurveSketch.Proofs.Heights
import CurveSketch.Proofs.FiniteCells
import CurveSketch.Proofs.DoubleMidpoints
import CurveSketch.Proofs.Sampling
import CurveSketch.Proofs.Vacuity
import CurveSketch.Proofs.Midpoints
import CurveSketch.Proofs.Crowding
import CurveSketch.Proofs.Drawing
import CurveSketch.Proofs.Halting
import CurveSketch.Proofs.Weakening
import CurveSketch.Proofs.Separation
import CurveSketch.Proofs.TallerBands
import CurveSketch.Proofs.CheckForms
import CurveSketch.Proofs.Rescaling
import CurveSketch.Proofs.Units
import CurveSketch.Proofs.RedundantTicks
import CurveSketch.Proofs.TwoSamples
import CurveSketch.Proofs.ThinLines
import CurveSketch.Proofs.ReadingOrder
import CurveSketch.Proofs.GuardedScales
import CurveSketch.Proofs.GuardedConversion
import CurveSketch.Proofs.Words
import CurveSketch.Proofs.Clipping
import CurveSketch.Proofs.EvenRulers
import CurveSketch.Proofs.FinerSampling
import CurveSketch.Proofs.Centers
import CurveSketch.Proofs.Tiling
import CurveSketch.Proofs.AxisReading
import CurveSketch.Proofs.EvenSlices
import CurveSketch.Proofs.Drafting
import CurveSketch.Proofs.Logs
import CurveSketch.Proofs.RunSearch
import CurveSketch.Proofs.SegmentChoice
import CurveSketch.Proofs.CommandLine
