import Aprof.RmsMetric
import Aprof.DrmsMetric
import Aprof.RmsOverflow
import Aprof.DrmsOverflow
import Aprof.ReturnAnalysis
import Aprof.WellBehaved
import Aprof.ReportCost
import Aprof.SingleLog
import Aprof.Isolation
import Aprof.StoredReports
import Aprof.SkippedCalls
import Aprof.BufferedOutput
import Aprof.ReportNames
import Aprof.SquareSums
import Aprof.CompressionOrder
import Aprof.MergeOrder
import Aprof.RecursionCosts
import Aprof.ZeroCosts
import Aprof.KernelMarks
import Aprof.EventQueue
import Aprof.HelperReports
import Aprof.ShadowMap
import Aprof.StackOrder
import Aprof.UniqueNames
import Aprof.SignedSearch
import Aprof.HashRuns
import Aprof.Plot.MergeTrees
import Aprof.Plot.CompleteMerge
import Aprof.Plot.Favorites
import Aprof.Plot.AmortizedRuns
import Aprof.Plot.PlainPlots
import Aprof.Plot.GroupedCharts
import Aprof.Plot.SmoothedCharts
import Aprof.PyPlot.AlphaPlot
import Aprof.PyPlot.ReadReports
import Aprof.RecordedTuples
import Aprof.BothBuilds
import Aprof.PrintedRuns
