import JsrProxy.PublishedOutcomes
import JsrProxy.VersionAllocationRuns
import JsrProxy.PackageObject
import JsrProxy.StoredRegistryRuns
import JsrProxy.MaterializationLeases
import JsrProxy.BranchObservations
import JsrProxy.MetadataRequests
import JsrProxy.ArchivedTrees
import JsrProxy.Base64
import JsrProxy.R2Publication
import JsrProxy.Publication
import JsrProxy.FallthroughModules
import JsrProxy.RetrievedFiles
import JsrProxy.ConcurrentHandlers
import JsrProxy.RepositoryDecisions
import JsrProxy.CachedDecisions
import JsrProxy.CredentialTraces
import JsrProxy.GatedScopes
import JsrProxy.ForwardedCredentials
import JsrProxy.ArtifactIsolation
import JsrProxy.PersistedRegistries
import JsrProxy.DamagedTransfers
import JsrProxy.RetriedMaterializations
import JsrProxy.CompleteBatches
import JsrProxy.StoredPublications
import JsrProxy.LoadableSnapshots
import JsrProxy.MaterializationHeaders
import JsrProxy.ParsedPaths
import JsrProxy.FallthroughCache
import JsrProxy.FailedCalls
import JsrProxy.GitHubBranches
import JsrProxy.ServiceOutages
import JsrProxy.AgreedHandlers
import JsrProxy.UnpackedArchives
import JsrProxy.PublishedExports
import JsrProxy.RewrittenImports
import JsrProxy.FailedRequests
import JsrProxy.FailingJobs
import JsrProxy.ConfinedCredentials
import JsrProxy.WholeListings
import JsrProxy.EncodedBodies
import JsrProxy.ObjectTexts
import JsrProxy.ExplainedResponses
import JsrProxy.Deployments
import JsrProxy.TrackedVisits
import JsrProxy.DecidedGates
import JsrProxy.ServedVersions
