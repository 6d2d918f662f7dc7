import ChatgptArchive.Integrity.Erasures
import ChatgptArchive.Integrity.Passes
import ChatgptArchive.Integrity.FactTimes
import ChatgptArchive.Integrity.OperationReports
import ChatgptArchive.Integrity.StalePlans
import ChatgptArchive.Reconciliation.Statistics
import ChatgptArchive.Reconciliation.Timelines
import ChatgptArchive.Integrity.EventSizes
import ChatgptArchive.Integrity.StoredUploads
import ChatgptArchive.Integrity.FaultyResumes
import ChatgptArchive.Content.Parts
import ChatgptArchive.MessageGraph
import ChatgptArchive.Content.Membership
import ChatgptArchive.Integrity.RevisionChains
import ChatgptArchive.SyntheticParser.Tree
import ChatgptArchive.SyntheticParser.Recovery
import ChatgptArchive.Reconciliation.Digest
import ChatgptArchive.RegistrationOrder
import ChatgptArchive.Integrity.ParserOrder
import ChatgptArchive.FixtureAdmission
import ChatgptArchive.BlobLockOrder
import ChatgptArchive.AckConsumer
